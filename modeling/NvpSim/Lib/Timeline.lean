/-
  Timelines: lists of events with the NEWEST first.

  `Since P Q log` says that some event has the property `P`, and that `Q` relates it to every event after it.  It is
  read along the list: a new event keeps to the rule of an older one, or is itself the one (`since_cons`).
-/

namespace NvpSim.Lib

open List

variable {A : Type}

variable {l newer older : List A} {e : A}

/-- Some event with `P` has happened, and `Q` relates it to all newer ones. -/
def Since (P : A → Prop) (Q : A → A → Prop) (log : List A) : Prop :=
  ∃ newer x older, log = newer ++ x :: older ∧ P x ∧ ∀ y ∈ newer, Q x y

section Since

variable {P : A → Prop} {Q : A → A → Prop} {log : List A}

/-- The newest entry is the one, or it keeps to the rule that the older one sets. -/
theorem since_cons : Since P Q (e :: log) ↔ P e ∨ Since (fun x => P x ∧ Q x e) Q log := by
  constructor
  · rintro ⟨newer, x, older, heq, hP, hQ⟩
    cases newer with
    | nil =>
      obtain ⟨rfl, -⟩ := List.cons.inj heq
      exact Or.inl hP
    | cons y newer =>
      obtain ⟨rfl, hlog⟩ := List.cons.inj heq
      exact Or.inr ⟨newer, x, older, hlog, ⟨hP, hQ _ mem_cons_self⟩, (forall_mem_cons.mp hQ).2⟩
  · rintro (hP | ⟨newer, x, older, rfl, ⟨hP, hQe⟩, hQ⟩)
    · exact ⟨[], e, log, rfl, hP, nofun⟩
    · exact ⟨e :: newer, x, older, rfl, hP, forall_mem_cons.mpr ⟨hQe, hQ⟩⟩

/-- What occurs at all occurs a last time. -/
theorem exists_last (h : ∃ x ∈ log, P x) : Since P (fun _ y => ¬ P y) log := by
  induction log with
  | nil =>
    obtain ⟨x, hx, -⟩ := h
    cases hx
  | cons e log ih =>
    rw [since_cons]
    by_cases he : P e
    · exact Or.inl he
    · right
      obtain ⟨x, hx, hPx⟩ := h
      rcases mem_cons.mp hx with rfl | hx
      · exact absurd hPx he
      · obtain ⟨newer, y, older, hlog, hy, hnone⟩ := ih ⟨x, hx, hPx⟩
        exact ⟨newer, y, older, hlog, ⟨hy, he⟩, hnone⟩

/-- After the last occurrence is after every occurrence. -/
theorem mem_newer_of_last {newer' older' : List A} {x x' : A}
    (h : log = newer ++ x :: older) (hlast : ∀ y ∈ newer, ¬ P y)
    (h' : log = newer' ++ x' :: older') (hx' : P x') {y : A} (hy : y ∈ newer) : y ∈ newer' := by
  rcases append_eq_append_iff.mp (h.symm.trans h') with ⟨mid, hnew, -⟩ | ⟨mid, hnew, heq⟩
  · rw [hnew]
    exact mem_append_left _ hy
  · cases mid with
    | nil =>
      rw [append_nil] at hnew
      exact hnew ▸ hy
    | cons z mid =>
      -- the event `x'` would be newer than the last of its kind
      obtain ⟨rfl, -⟩ := List.cons.inj heq
      exact absurd hx' (hlast x' (by rw [hnew]; simp))

end Since

end NvpSim.Lib
