/-
  Prefixes of machine words: the first `w` bits from the top.

  C++ code keeps a prefix as a word and a mask of leading ones, compares words under the mask, and makes a mask
  longer by shifting it.  `Agree w x y` is what such a comparison says: the words have the same first `w` bits.
-/
import Mathlib.Data.List.Count

namespace NvpSim.Lib

variable {n w w' : Nat} {x y z : BitVec n}

/-- The mask of the first `w` bits. -/
def leadMask (n w : Nat) : BitVec n := BitVec.allOnes n <<< (n - w)

/-- The first `w` bits are the same. -/
def Agree (w : Nat) (x y : BitVec n) : Prop := ∀ i < w, x.getMsbD i = y.getMsbD i

theorem Agree.refl (w : Nat) (x : BitVec n) : Agree w x x := fun _ _ => rfl

theorem Agree.symm (h : Agree w x y) : Agree w y x := fun i hi => (h i hi).symm

theorem Agree.trans (h : Agree w x y) (h' : Agree w y z) : Agree w x z :=
  fun i hi => (h i hi).trans (h' i hi)

/-- Words that agree on some leading bits agree on fewer. -/
theorem Agree.mono (h : Agree w x y) (hw : w' ≤ w) : Agree w' x y :=
  fun i hi => h i (Nat.lt_of_lt_of_le hi hw)

/-- One more leading bit. -/
theorem agree_succ : Agree (w + 1) x y ↔ Agree w x y ∧ x.getMsbD w = y.getMsbD w := by
  constructor
  · exact fun h => ⟨h.mono (Nat.le_succ w), h w (Nat.lt_succ_self w)⟩
  · rintro ⟨h, hlast⟩ i hi
    rcases Nat.lt_succ_iff_lt_or_eq.mp hi with hi | rfl
    · exact h i hi
    · exact hlast

/-- The mask has its `w` leading bits. -/
theorem getMsbD_leadMask (hw : w ≤ n) (i : Nat) : (leadMask n w).getMsbD i = decide (i < w) := by
  rw [leadMask, BitVec.getMsbD_shiftLeft, BitVec.getMsbD_allOnes]
  exact decide_eq_decide.mpr (by omega)

/-- **Comparing under a mask compares the leading bits.** -/
theorem and_leadMask_eq_iff (hw : w ≤ n) : x &&& leadMask n w = y &&& leadMask n w ↔ Agree w x y := by
  constructor
  · intro h i hi
    have hbit := congrArg (fun v => v.getMsbD i) h
    simpa [getMsbD_leadMask hw, hi] using hbit
  · intro h
    refine BitVec.eq_of_getMsbD_eq fun i _ => ?_
    rw [BitVec.getMsbD_and, BitVec.getMsbD_and, getMsbD_leadMask hw]
    by_cases hi : i < w
    · simp [hi, h i hi]
    · simp [hi]

/-- A mask is contained in every longer one. -/
theorem leadMask_and (hw : w ≤ n) (hw' : w' ≤ n) : leadMask n w &&& leadMask n w' = leadMask n w ↔ w ≤ w' := by
  constructor
  · intro h
    by_contra hlt
    have hbit := congrArg (fun v => v.getMsbD w') h
    simp [getMsbD_leadMask hw, getMsbD_leadMask hw'] at hbit
    omega
  · intro h
    refine BitVec.eq_of_getMsbD_eq fun i _ => ?_
    rw [BitVec.getMsbD_and, getMsbD_leadMask hw, getMsbD_leadMask hw', ← Bool.decide_and]
    exact decide_eq_decide.mpr (by omega)

/-- The number of leading bits is read off the mask. -/
theorem leadMask_inj (hw : w ≤ n) (hw' : w' ≤ n) (h : leadMask n w = leadMask n w') : w = w' := by
  have hself : ∀ v, leadMask n v &&& leadMask n v = leadMask n v := fun v => BitVec.and_self
  refine Nat.le_antisymm ((leadMask_and hw hw').mp ?_) ((leadMask_and hw' hw).mp ?_)
  · rw [← h, hself]
  · rw [h, hself]

/-- A mask is made longer by one bit: shifted right, with the top bit set. -/
theorem leadMask_succ (hw : w < n) :
    leadMask n w ||| leadMask n w >>> 1 ||| BitVec.twoPow n (n - 1) = leadMask n (w + 1) := by
  refine BitVec.eq_of_getMsbD_eq fun i hi => ?_
  rw [BitVec.getMsbD_or, BitVec.getMsbD_or, BitVec.getMsbD_ushiftRight, BitVec.getMsbD_twoPow,
    getMsbD_leadMask (Nat.le_of_lt hw), getMsbD_leadMask (Nat.le_of_lt hw), getMsbD_leadMask hw]
  simp only [← Bool.decide_and, ← Bool.decide_or, ← decide_not]
  exact decide_eq_decide.mpr (by omega)

theorem leadMask_zero : leadMask n 0 = 0 := by
  refine BitVec.eq_of_getMsbD_eq fun i _ => ?_
  rw [getMsbD_leadMask (Nat.zero_le n)]
  simp

/-- The length of a mask. -/
def leadLen (m : BitVec n) : Nat := (List.range n).countP fun i => m.getMsbD i

/-- The loop counts the leading bits. -/
theorem leadLen_leadMask (hw : w ≤ n) : leadLen (leadMask n w) = w := by
  have hcount : ∀ k, (List.range k).countP (fun i => decide (i < w)) = min k w := by
    intro k
    induction k with
    | zero => simp
    | succ k ih =>
      rw [List.range_succ, List.countP_append]
      by_cases hk : k < w
      · simp [hk]
        omega
      · simp [hk]
        omega
  unfold leadLen
  simp only [getMsbD_leadMask hw, hcount]
  omega

end NvpSim.Lib
