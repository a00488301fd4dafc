/-
  A function that moves between levels and never turns around.

  If after a step up there is no step down, after a step down no step up, and a step to the same level is no
  step at all, then the levels of `s, f s, f (f s), …` go one way, and below `n` levels the `n`-th call changes
  nothing any more.
-/
import Mathlib.Order.Monotone.Basic

namespace NvpSim.Lib

open Function

variable {σ : Type}

/-- Never turns around, on the states that `P` describes. -/
structure Ladder (f : σ → σ) (level : σ → Nat) (P : σ → Prop) : Prop where
  keeps : ∀ s, P s → P (f s)
  same : ∀ s, P s → level (f s) = level s → f s = s
  up : ∀ s, P s → level s < level (f s) → level (f s) ≤ level (f (f s))
  down : ∀ s, P s → level (f s) < level s → level (f (f s)) ≤ level (f s)

namespace Ladder

variable {f : σ → σ} {level : σ → Nat} {P : σ → Prop} {s : σ}

theorem keeps_iterate (h : Ladder f level P) (hs : P s) (i : Nat) : P (f^[i] s) := by
  induction i with
  | zero => exact hs
  | succ i ih =>
    rw [iterate_succ_apply']
    exact h.keeps _ ih

section

variable (h : Ladder f level P) (hs : P s)

include h hs

theorem climbs (hup : level s < level (f s)) (i : Nat) :
    (level s + i ≤ level (f^[i] s) ∧ level (f^[i] s) < level (f^[i + 1] s)) ∨ f (f^[i] s) = f^[i] s := by
  induction i with
  | zero => exact Or.inl ⟨Nat.le_refl _, hup⟩
  | succ i ih =>
    rw [iterate_succ_apply' f (i + 1), iterate_succ_apply' f i] at *
    rcases ih with ⟨hle, hlt⟩ | hfix
    · have hP := h.keeps_iterate hs i
      have hnext := h.up _ hP hlt
      rcases Nat.lt_or_eq_of_le hnext with hlt' | heq
      · exact Or.inl ⟨by omega, hlt'⟩
      · exact Or.inr (h.same _ (h.keeps _ hP) heq.symm)
    · exact Or.inr (by rw [hfix, hfix])

theorem descends (hdown : level (f s) < level s) (i : Nat) :
    (level (f^[i] s) + i ≤ level s ∧ level (f^[i + 1] s) < level (f^[i] s)) ∨ f (f^[i] s) = f^[i] s := by
  induction i with
  | zero => exact Or.inl ⟨Nat.le_refl _, hdown⟩
  | succ i ih =>
    rw [iterate_succ_apply' f (i + 1), iterate_succ_apply' f i] at *
    rcases ih with ⟨hle, hlt⟩ | hfix
    · have hP := h.keeps_iterate hs i
      have hnext := h.down _ hP hlt
      rcases Nat.lt_or_eq_of_le hnext with hlt' | heq
      · exact Or.inl ⟨by omega, hlt'⟩
      · exact Or.inr (h.same _ (h.keeps _ hP) heq)
    · exact Or.inr (by rw [hfix, hfix])

/-- **It goes one way.** -/
theorem oneWay : Monotone (fun i => level (f^[i] s)) ∨ Antitone (fun i => level (f^[i] s)) := by
  rcases Nat.lt_trichotomy (level s) (level (f s)) with hup | heq | hdown
  · refine Or.inl (monotone_nat_of_le_succ fun i => ?_)
    rcases h.climbs hs hup i with ⟨-, hlt⟩ | hfix
    · exact hlt.le
    · rw [iterate_succ_apply', hfix]
  · have hfix := h.same s hs heq.symm
    refine Or.inl (monotone_nat_of_le_succ fun i => ?_)
    rw [iterate_fixed hfix, iterate_fixed hfix]
  · refine Or.inr (antitone_nat_of_succ_le fun i => ?_)
    rcases h.descends hs hdown i with ⟨-, hlt⟩ | hfix
    · exact hlt.le
    · rw [iterate_succ_apply', hfix]

/-- **It comes to a stand**: with levels up to `n`, the call after the first `n` changes nothing. -/
theorem settles {n : Nat} (hn : ∀ s, P s → level s ≤ n) : f (f^[n] s) = f^[n] s := by
  have hP := h.keeps_iterate hs
  rcases Nat.lt_trichotomy (level s) (level (f s)) with hup | heq | hdown
  · rcases h.climbs hs hup n with ⟨hle, hlt⟩ | hfix
    · have := hn _ (hP (n + 1))
      omega
    · exact hfix
  · have hfix := h.same s hs heq.symm
    rw [iterate_fixed hfix, hfix]
  · rcases h.descends hs hdown n with ⟨hle, hlt⟩ | hfix
    · have := hn s hs
      omega
    · exact hfix

end

end Ladder

end NvpSim.Lib
