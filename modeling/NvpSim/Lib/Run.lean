/-
  Runs of a labelled step relation, and the two induction rules every safety result here uses.

  `Run step s as s'` says that the labels `as`, taken in order, lead from `s` to `s'`.  The list grows at its
  END, because the statements over runs talk about the PAST of a state.

  * `Run.inv`       — an invariant of one step is an invariant of a run;
  * `Run.inv_hist`  — the same with the labels taken so far in the invariant;
  * `Guarded`       — the steps of a relation that meet a condition on the state before the step;
  * `exec`          — runs of a partial function, executable; `exec_iff` and `exec_guardFn_iff`
    read it back as a `Run`.
-/

namespace NvpSim.Lib

open List Option

variable {S A : Type}

/-- `Run step s as s'` — the labels `as`, taken in order, lead from `s` to `s'`. -/
inductive Run (step : S → A → S → Prop) (s : S) : List A → S → Prop where
  | nil : Run step s [] s
  | snoc {as : List A} {a : A} {s' s'' : S} (h : Run step s as s') (hs : step s' a s'') :
      Run step s (as ++ [a]) s''

/-- `Guarded step G` — the steps whose start state and label meet the condition `G`. -/
def Guarded (step : S → A → S → Prop) (G : S → A → Prop) : S → A → S → Prop :=
  fun s a s' => step s a s' ∧ G s a

namespace Run

variable {step step' : S → A → S → Prop} {s s' s'' : S} {as bs : List A}

/-- **The invariant rule.**  What every step preserves, every run preserves. -/
theorem inv {P : S → Prop} (hstep : ∀ s a s', P s → step s a s' → P s') (h : Run step s as s') (h0 : P s) : P s' := by
  induction h with
  | nil => exact h0
  | snoc _ hs ih => exact hstep _ _ _ ih hs

/-- **The history rule.**  An invariant that also mentions the labels taken so far. -/
theorem inv_hist {P : List A → S → Prop} (hstep : ∀ as s a s', P as s → step s a s' → P (as ++ [a]) s')
    (h : Run step s as s') (h0 : P [] s) : P as s' := by
  induction h with
  | nil => exact h0
  | snoc _ hs ih => exact hstep _ _ _ _ ih hs

/-- A run of some steps is one of more. -/
theorem mono (hsub : ∀ s a s', step s a s' → step' s a s') (h : Run step s as s') : Run step' s as s' := by
  induction h with
  | nil => exact .nil
  | snoc _ hs ih => exact .snoc ih (hsub _ _ _ hs)

/-- A guard only takes runs away. -/
theorem unguard {G : S → A → Prop} (h : Run (Guarded step G) s as s') : Run step s as s' :=
  h.mono (fun _ _ _ hg => hg.1)

/-- Runs one after the other. -/
theorem append (h : Run step s as s') (h' : Run step s' bs s'') : Run step s (as ++ bs) s'' := by
  induction h' with
  | nil => rw [append_nil]; exact h
  | snoc _ hs ih => rw [← append_assoc]; exact .snoc ih hs

theorem cons {a : A} (hs : step s a s') (h : Run step s' as s'') : Run step s (a :: as) s'' :=
  (Run.nil.snoc hs).append h

/-- The last step of a run. -/
theorem of_snoc {a : A} (h : Run step s (as ++ [a]) s'') : ∃ m, Run step s as m ∧ step m a s'' := by
  generalize has : as ++ [a] = bs at h
  cases h with
  | nil => simp at has
  | snoc h hs =>
    obtain ⟨rfl, rfl⟩ : _ ∧ _ := by simpa using append_inj' has rfl
    exact ⟨_, h, hs⟩

end Run

/-! ## Runs of a partial function -/

/-- The runs of a partial step function: `none` as soon as one step is undefined. -/
def exec (f : S → A → Option S) : S → List A → Option S
  | s, [] => some s
  | s, a :: as => (f s a).bind (fun s' => exec f s' as)

/-- The step relation of a partial function. -/
def stepOf (f : S → A → Option S) : S → A → S → Prop := fun s a s' => f s a = some s'

/-- Executions one after the other. -/
theorem exec_append (f : S → A → Option S) (s : S) (as bs : List A) :
    exec f s (as ++ bs) = (exec f s as).bind (fun s' => exec f s' bs) := by
  induction as generalizing s with
  | nil => rfl
  | cons a as ih =>
    rw [cons_append, exec, exec, bind_assoc]
    exact congrArg _ (funext ih)

variable {f : S → A → Option S} {P : S → Prop} {as : List A} {s : S} {G : S → A → Prop}

/-- **The rule for a loop that goes through**: each turn succeeds from what the turns before it leave. -/
theorem exec_of_turns {P : List A → S → Prop} (hturn : ∀ done a rest s, as = done ++ a :: rest → P done s →
      ∃ s', f s a = some s' ∧ P (done ++ [a]) s') (h : P [] s) : ∃ s', exec f s as = some s' ∧ P as s' := by
  have hgen : ∀ rest done s, as = done ++ rest → P done s → ∃ s', exec f s rest = some s' ∧ P as s' := by
    intro rest
    induction rest with
    | nil =>
      intro done s has hP
      rw [append_nil] at has
      exact ⟨s, rfl, has ▸ hP⟩
    | cons a rest ih =>
      intro done s has hP
      obtain ⟨s₁, hs₁, hP₁⟩ := hturn done a rest s has hP
      obtain ⟨s', hs', hP'⟩ := ih (done ++ [a]) s₁ (by rw [has]; simp) hP₁
      exact ⟨s', by rw [exec, hs₁, bind_some, hs'], hP'⟩
  exact hgen as [] s rfl h

/-- **The rule for a loop that fails**: one turn fails whatever the others leave. -/
theorem exec_eq_none {a : A} (ha : a ∈ as) (hfail : ∀ s, P s → f s a = none)
    (hkeep : ∀ b ∈ as, b ≠ a → ∀ s s', P s → f s b = some s' → P s') (h : P s) : exec f s as = none := by
  induction as generalizing s with
  | nil => cases ha
  | cons b as ih =>
    rw [exec]
    by_cases hb : b = a
    · rw [hb, hfail s h, bind_none]
    · have ha' := (mem_cons.mp ha).resolve_left (Ne.symm hb)
      cases hs : f s b with
      | none => rfl
      | some s' =>
        exact ih ha' (fun c hc => hkeep c (mem_cons_of_mem b hc)) (hkeep b (mem_cons_self ..) hb s s' h hs)

/-- An execution is a run. -/
theorem exec_iff {s' : S} : exec f s as = some s' ↔ Run (stepOf f) s as s' := by
  constructor
  · induction as generalizing s with
    | nil => intro h; cases h; exact .nil
    | cons a as ih =>
      intro h
      obtain ⟨m, hm, h'⟩ := bind_eq_some_iff.mp h
      exact Run.cons hm (ih h')
  · intro h
    induction h with
    | nil => rfl
    | snoc _ hs ih =>
      rw [exec_append, ih, bind_some, exec, hs, bind_some, exec]

/-- The actions decide where a run ends. -/
theorem Run.unique {s₁ s₂ : S} (h₁ : Run (stepOf f) s as s₁) (h₂ : Run (stepOf f) s as s₂) : s₁ = s₂ :=
  Option.some.inj ((exec_iff.mpr h₁).symm.trans (exec_iff.mpr h₂))

theorem Run.guarded_snoc_iff {m s' : S} {a : A} (h : Run (stepOf f) s as m) (hs : f m a = some s') :
    Run (Guarded (stepOf f) G) s (as ++ [a]) s' ↔ Run (Guarded (stepOf f) G) s as m ∧ G m a := by
  constructor
  · intro hrun
    obtain ⟨m', hm', -, hG⟩ := hrun.of_snoc
    cases h.unique hm'.unguard
    exact ⟨hm', hG⟩
  · rintro ⟨hrun, hG⟩
    exact hrun.snoc ⟨hs, hG⟩

/-- A partial function restricted to the steps that meet a decidable condition. -/
def guardFn (f : S → A → Option S) (G : S → A → Prop) [∀ s a, Decidable (G s a)] : S → A → Option S :=
  fun s a => if G s a then f s a else none

theorem exec_guardFn_iff [∀ s a, Decidable (G s a)] {s' : S} :
    exec (guardFn f G) s as = some s' ↔ Run (Guarded (stepOf f) G) s as s' := by
  rw [exec_iff]
  have hstep : stepOf (guardFn f G) = Guarded (stepOf f) G := by
    funext s a s'
    exact propext (ite_none_right_eq_some.trans and_comm)
  rw [hstep]

/-! ## Runs that are carried out -/

/-- What is known of an execution from evaluating it. -/
theorem exec_observe {T : Type} (obs : S → T) (v : T) (h : (exec f s as).map obs = some v)
    (hP : ∀ s', exec f s as = some s' → obs s' = v → P s') : ∃ s', exec f s as = some s' ∧ P s' := by
  obtain ⟨s', hs', hobs⟩ := map_eq_some_iff.mp h
  exact ⟨s', hs', hP s' hs' hobs⟩

/-- What is known of a guarded run from evaluating it. -/
theorem run_observe {T : Type} [∀ s a, Decidable (G s a)] (obs : S → T) (v : T)
    (h : (exec (guardFn f G) s as).map obs = some v)
    (hP : ∀ s', Run (Guarded (stepOf f) G) s as s' → obs s' = v → P s') :
    ∃ s', Run (Guarded (stepOf f) G) s as s' ∧ P s' := by
  obtain ⟨s', hs', hrest⟩ := exec_observe obs v h fun s' hs' => hP s' (exec_guardFn_iff.mp hs')
  exact ⟨s', exec_guardFn_iff.mp hs', hrest⟩

end NvpSim.Lib
