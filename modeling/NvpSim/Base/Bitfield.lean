/-
  Machine words: the fields of a 64-bit word (`base/bitfield.hh`, as `BitUnion64` uses it), and the division that
  rounds up (`base/intmath.hh`).

  A field is given by its bits `first` (the most significant) down to `last`.

  The lemmas are about single bits: a field that is inserted is read back, and the bits beside it stay.
-/
import Mathlib.Algebra.Ring.Nat

namespace NvpSim.Base

/-- `divCeil(a, b)`. -/
def divCeil (a b : Nat) : Nat := (a + b - 1) / b

theorem divCeil_bounds {a b : Nat} (hb : 0 < b) : a ≤ divCeil a b * b ∧ divCeil a b * b < a + b := by
  have hdiv := Nat.div_add_mod (a + b - 1) b
  have hmod := Nat.mod_lt (a + b - 1) hb
  unfold divCeil
  rw [Nat.mul_comm]
  omega

namespace Bitfield

/-- `mask(nbits)`: the low `nbits` bits. -/
def mask (nbits : Nat) : BitVec 64 := BitVec.ofNat 64 (2 ^ nbits - 1)

/-- `bits(val, first, last)`: the field, right justified. -/
def bits (val : BitVec 64) (first last : Nat) : BitVec 64 :=
  (val >>> last) &&& mask (first - last + 1)

def insertBits (val : BitVec 64) (first last : Nat) (bitVal : BitVec 64) : BitVec 64 :=
  let bmask := mask (first - last + 1) <<< last
  ((bitVal <<< last) &&& bmask) ||| (val &&& ~~~bmask)

theorem getLsbD_mask (n i : Nat) : (mask n).getLsbD i = (decide (i < 64) && decide (i < n)) := by
  unfold mask
  rw [BitVec.getLsbD_ofNat, Nat.testBit_two_pow_sub_one]

theorem getLsbD_bits (val : BitVec 64) (first last i : Nat) : (bits val first last).getLsbD i =
      (decide (i < first - last + 1) && val.getLsbD (last + i)) := by
  unfold bits
  rw [BitVec.getLsbD_and, BitVec.getLsbD_ushiftRight, getLsbD_mask]
  by_cases hi : i < 64
  · simp [hi, Bool.and_comm]
  · rw [BitVec.getLsbD_of_ge val (last + i) (by omega)]
    simp

theorem getLsbD_insertBits (val bitVal : BitVec 64) (first last i : Nat) (hi : i < 64) :
    (insertBits val first last bitVal).getLsbD i =
      if last ≤ i ∧ i < last + (first - last + 1) then bitVal.getLsbD (i - last)
      else val.getLsbD i := by
  unfold insertBits
  simp only [BitVec.getLsbD_or, BitVec.getLsbD_and, BitVec.getLsbD_shiftLeft, BitVec.getLsbD_not,
    getLsbD_mask, hi, decide_true, Bool.true_and]
  by_cases hlast : last ≤ i
  · by_cases hfirst : i < last + (first - last + 1)
    · rw [if_pos ⟨hlast, hfirst⟩]
      simp [Nat.not_lt.mpr hlast, show i - last < 64 by omega, show i - last < first - last + 1 by omega]
    · rw [if_neg (by omega)]
      simp [show ¬ i - last < first - last + 1 by omega]
  · rw [if_neg (by omega)]
    simp [show i < last by omega]

/-- **A field reads back what was put into it.** -/
theorem bits_insertBits_self (val bitVal : BitVec 64) {first last : Nat} (hfirst : first < 64)
    (hlast : last ≤ first) :
    bits (insertBits val first last bitVal) first last = bitVal &&& mask (first - last + 1) := by
  apply BitVec.eq_of_getLsbD_eq
  intro i hi
  rw [getLsbD_bits, BitVec.getLsbD_and, getLsbD_mask]
  by_cases hin : i < first - last + 1
  · rw [getLsbD_insertBits _ _ _ _ _ (by omega)]
    simp [hin, hi]
  · simp [hin]

/-- **A field does not see what is put beside it.** -/
theorem bits_insertBits_of_disjoint (val bitVal : BitVec 64) {first last first' last' : Nat}
    (hfirst : first < 64) (hdisj : first' < last ∨ first < last') (hlast : last ≤ first) (hlast' : last' ≤ first') :
    bits (insertBits val first' last' bitVal) first last = bits val first last := by
  apply BitVec.eq_of_getLsbD_eq
  intro i hi
  rw [getLsbD_bits, getLsbD_bits]
  by_cases hin : i < first - last + 1
  · rw [getLsbD_insertBits _ _ _ _ _ (by omega), if_neg (by omega)]
  · simp [hin]

theorem toNat_and_mask (x : BitVec 64) {n : Nat} (hn : n ≤ 64) : (x &&& mask n).toNat = x.toNat % 2 ^ n := by
  have hpow : 2 ^ n ≤ 2 ^ 64 := Nat.pow_le_pow_right (by decide) hn
  rw [BitVec.toNat_and, mask, BitVec.toNat_ofNat, Nat.mod_eq_of_lt (by omega), Nat.and_two_pow_sub_one_eq_mod]

theorem toNat_bits (val : BitVec 64) {first last : Nat} (hfirst : first < 64) :
    (bits val first last).toNat = val.toNat / 2 ^ last % 2 ^ (first - last + 1) := by
  rw [bits, toNat_and_mask _ (by omega), BitVec.toNat_ushiftRight, Nat.shiftRight_eq_div_pow]

end Bitfield

end NvpSim.Base
