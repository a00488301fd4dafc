/-
  Undo logs: a state is changed in steps, each step leaves an entry by which it can be undone, and the newest
  entries are undone to get back to an earlier point.

  `undo m e` is the state before the step that left `e`.  The `trail` has, for every step that has not been
  undone, its stamp and the state right after it, newest first.
-/

namespace NvpSim.Lib.UndoLog

open List

variable {M E : Type} (undo : M → E → M) (stamp : E → Nat) (good : M → E → Prop) (m₀ : M)

/-- The state after the last step of the trail. -/
def top (trail : List (Nat × M)) : M := (trail.head?.map (·.2)).getD m₀

/-- The state right after the last step with a stamp of at most `n`. -/
def stateAt (trail : List (Nat × M)) (n : Nat) : M :=
  ((trail.find? (fun x => x.1 ≤ n)).map (·.2)).getD m₀

/-- The log leads back along the trail. -/
def Replays : M → List E → List (Nat × M) → Prop
  | m, [], trail => m = top m₀ trail
  | _, _ :: _, [] => False
  | m, e :: es, x :: trail =>
    x.1 = stamp e ∧ m = x.2 ∧ good m e ∧ Replays (undo m e) es trail

/-- Undo the entries with a stamp of more than `n`. -/
def rollback (n : Nat) : M → List E → M × List E
  | m, [] => (m, [])
  | m, e :: es => if n < stamp e then rollback n (undo m e) es else (m, e :: es)

variable {undo stamp good m₀} {m m' : M} {e : E} {es : List E} {trail : List (Nat × M)} {n : Nat}

theorem Replays.eq_top (h : Replays undo stamp good m₀ m es trail) : m = top m₀ trail := by
  cases es with
  | nil => exact h
  | cons e es =>
    cases trail with
    | nil => exact h.elim
    | cons x trail => exact h.2.1

theorem Replays.push (h : Replays undo stamp good m₀ m es trail) (hundo : undo m' e = m)
    (hgood : good m' e) : Replays undo stamp good m₀ m' (e :: es) ((stamp e, m') :: trail) := by
  refine ⟨rfl, rfl, hgood, ?_⟩
  rw [hundo]
  exact h

theorem Replays.drop_old {old : List E} : ∀ {es : List E} {m : M} {trail : List (Nat × M)},
      Replays undo stamp good m₀ m (es ++ old) trail → Replays undo stamp good m₀ m es trail := by
  intro es
  induction es with
  | nil =>
    intro m trail h
    exact h.eq_top
  | cons e es ih =>
    intro m trail h
    cases trail with
    | nil => exact h.elim
    | cons x trail => exact ⟨h.1, h.2.1, h.2.2.1, ih h.2.2.2⟩

theorem Replays.mem_drop {old : List E} {x : Nat × M} : ∀ {es : List E} {m : M} {trail : List (Nat × M)},
      Replays undo stamp good m₀ m (es ++ old) trail → x ∈ trail.drop es.length →
        (∃ e ∈ old, x.1 = stamp e) ∨ x ∈ trail.drop (es ++ old).length := by
  intro es
  induction es with
  | nil =>
    intro m trail h hx
    induction old generalizing m trail with
    | nil => exact Or.inr hx
    | cons e old ih =>
      cases trail with
      | nil => exact h.elim
      | cons y trail =>
        rcases mem_cons.mp hx with rfl | hx
        · exact Or.inl ⟨e, mem_cons_self .., h.1⟩
        · rcases ih h.2.2.2 hx with ⟨e', he', hstamp⟩ | hx
          · exact Or.inl ⟨e', mem_cons_of_mem _ he', hstamp⟩
          · exact Or.inr hx
  | cons e es ih =>
    intro m trail h hx
    cases trail with
    | nil => exact h.elim
    | cons y trail => exact ih h.2.2.2 hx

/-- Nothing is undone if the last step has a stamp of at most `n`. -/
theorem stays {x : Nat × M} {trail : List (Nat × M)} (hx : x.1 ≤ n) :
    (x :: trail).dropWhile (fun x => n < x.1) = x :: trail ∧ stateAt m₀ (x :: trail) n = x.2 := by
  constructor
  · rw [dropWhile_cons_of_neg]
    simpa using hx
  · unfold stateAt
    rw [find?_cons_of_pos (by simpa using hx)]
    rfl

/-- **Going back** to `n`, behind which no entry was dropped: the state is the one right after the last step
    with a stamp of at most `n`, and what is left of the log leads back along what is left of the
    trail. -/
theorem Replays.rollback : ∀ {es : List E} {m : M} {trail : List (Nat × M)},
    Replays undo stamp good m₀ m es trail → (∀ x ∈ trail.drop es.length, x.1 ≤ n) →
      (rollback undo stamp n m es).1 = stateAt m₀ trail n ∧
        Replays undo stamp good m₀ (rollback undo stamp n m es).1 (rollback undo stamp n m es).2
          (trail.dropWhile fun x => n < x.1) ∧
        (trail.dropWhile fun x => n < x.1).drop (rollback undo stamp n m es).2.length = trail.drop es.length := by
  intro es
  induction es with
  | nil =>
    intro m trail h hold
    cases trail with
    | nil => exact ⟨h, h, rfl⟩
    | cons x trail =>
      obtain ⟨hdrop, hat⟩ := stays (hold x (mem_cons_self ..))
      rw [hdrop, hat]
      exact ⟨h, h, rfl⟩
  | cons e es ih =>
    intro m trail h hold
    cases trail with
    | nil => exact h.elim
    | cons x trail =>
      obtain ⟨hstamp, hm, hgood, hrest⟩ := h
      rw [UndoLog.rollback]
      by_cases hlt : n < stamp e
      · -- the step is undone, and its place on the trail is passed
        have hdrop : (x :: trail).dropWhile (fun x => n < x.1) = trail.dropWhile fun x => n < x.1 := by
          rw [dropWhile_cons_of_pos]
          simpa [hstamp] using hlt
        have hat : stateAt m₀ (x :: trail) n = stateAt m₀ trail n := by
          unfold stateAt
          simp [hstamp, hlt]
        rw [if_pos hlt, hdrop, hat]
        exact ih hrest hold
      · have hle : x.1 ≤ n := by omega
        obtain ⟨hdrop, hat⟩ := stays hle
        rw [if_neg hlt, hdrop, hat]
        exact ⟨hm, ⟨hstamp, hm, hgood, hrest⟩, rfl⟩

end NvpSim.Lib.UndoLog
