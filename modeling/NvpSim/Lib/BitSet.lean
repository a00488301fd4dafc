/-
  Words as sets: a machine word holds the finite set of the positions of its one-bits.

  The operations of a word are those of sets (`|||` is the union, `&&&` the intersection, `twoPow` a singleton),
  tests of a word are questions about the set, and the loops by which code counts the bits of a word, finds the
  lowest one or trims the highest ones are read back once.
-/
import Mathlib.Order.Interval.Finset.Nat
import NvpSim.Lib.Flags

namespace NvpSim.Lib

variable {n : Nat} {w v : BitVec n} {A B : Finset Nat} {i : Nat}

/-- The one-bits of `w` are the elements of `A`. -/
def Holds (w : BitVec n) (A : Finset Nat) : Prop := ∀ j, w.getLsbD j = decide (j ∈ A)

namespace Holds

theorem zero : Holds (0#n) ∅ := by
  intro j
  simp

/-- The elements are numbers of bits. -/
theorem lt_of_mem (h : Holds w A) {j : Nat} (hj : j ∈ A) : j < n := by
  have hbit := h j
  rw [decide_eq_true hj] at hbit
  exact BitVec.lt_of_getLsbD hbit

section

variable (hw : Holds w A) (hv : Holds v B)

include hw hv

/-- **Words are equal exactly if the sets are.** -/
theorem eq_iff : w = v ↔ A = B := by
  constructor
  · intro heq
    ext j
    have hj := hw j
    rw [heq, hv j, decide_eq_decide] at hj
    exact hj.symm
  · intro heq
    apply BitVec.eq_of_getLsbD_eq
    intro j _
    rw [hw j, hv j, heq]

theorem union : Holds (w ||| v) (A ∪ B) := by
  intro j
  rw [BitVec.getLsbD_or, hw j, hv j]
  simp

theorem inter : Holds (w &&& v) (A ∩ B) := by
  intro j
  rw [BitVec.getLsbD_and, hw j, hv j]
  simp

theorem sdiff : Holds (w &&& ~~~v) (A \ B) := by
  intro j
  rw [BitVec.getLsbD_and, BitVec.getLsbD_not, hw j, hv j]
  by_cases hj : j ∈ A
  · simp [hj, hw.lt_of_mem hj]
  · simp [hj]

end

theorem singleton (hi : i < n) : Holds (BitVec.twoPow n i) {i} := by
  intro j
  rw [BitVec.getLsbD_twoPow]
  by_cases hij : i = j
  · subst hij
    simp [hi]
  · simp [hij, Ne.symm hij]

theorem insert (h : Holds w A) (hi : i < n) : Holds (w ||| BitVec.twoPow n i) (insert i A) := by
  have hunion := h.union (singleton hi)
  rw [Finset.union_comm] at hunion
  exact hunion

theorem erase (h : Holds w A) (hi : i < n) : Holds (w &&& ~~~BitVec.twoPow n i) (A.erase i) := by
  have hdiff := h.sdiff (singleton hi)
  rw [Finset.sdiff_singleton_eq_erase] at hdiff
  exact hdiff

/-- The test of one bit is membership. -/
theorem and_twoPow_ne_zero (h : Holds w A) (hi : i < n) : w &&& BitVec.twoPow n i ≠ 0#n ↔ i ∈ A := by
  rw [Ne, (h.inter (singleton hi)).eq_iff zero, ← Ne, ← Finset.nonempty_iff_ne_empty]
  constructor
  · rintro ⟨j, hj⟩
    obtain ⟨hjA, hji⟩ := Finset.mem_inter.mp hj
    rw [← Finset.mem_singleton.mp hji]
    exact hjA
  · intro hmem
    exact ⟨i, Finset.mem_inter.mpr ⟨hmem, Finset.mem_singleton_self i⟩⟩

/-- Words without a common bit are disjoint sets. -/
theorem and_eq_zero (hw : Holds w A) (hv : Holds v B) : w &&& v = 0#n ↔ Disjoint A B := by
  rw [(hw.inter hv).eq_iff zero, Finset.disjoint_iff_inter_eq_empty]

/-- The test `((v & w) | ~v) == ~0` is inclusion. -/
theorem covers_iff (hw : Holds w A) (hv : Holds v B) : (v &&& w) ||| ~~~v = BitVec.allOnes n ↔ B ⊆ A := by
  constructor
  · intro heq j hj
    have hlt := hv.lt_of_mem hj
    have hbit := congrArg (fun x => BitVec.getLsbD x j) heq
    simp only [BitVec.getLsbD_or, BitVec.getLsbD_and, BitVec.getLsbD_not, BitVec.getLsbD_allOnes,
      hv j, hw j, decide_eq_true hj, decide_eq_true hlt] at hbit
    simpa using hbit
  · intro hsub
    apply BitVec.eq_of_getLsbD_eq
    intro j hj
    simp only [BitVec.getLsbD_or, BitVec.getLsbD_and, BitVec.getLsbD_not, BitVec.getLsbD_allOnes,
      hv j, hw j, decide_eq_true hj]
    by_cases hmem : j ∈ B
    · simp [hmem, hsub hmem]
    · simp [hmem]

/-- The number of set bits is the number of elements. -/
theorem countP_eq_card (h : Holds w A) {m : Nat} (hm : n ≤ m) :
    (List.range m).countP (fun j => w.getLsbD j) = A.card := by
  have hset : (List.range m).countP (fun j => w.getLsbD j) =
      ((Finset.range m).filter (fun j => w.getLsbD j = true)).card := by
    rw [List.countP_eq_length_filter, Finset.card, Finset.filter_val, Finset.range_val,
      Multiset.range, Multiset.filter_coe, Multiset.coe_card]
    simp
  rw [hset]
  congr 1
  ext j
  rw [Finset.mem_filter, Finset.mem_range, h j, decide_eq_true_eq]
  constructor
  · exact fun hj => hj.2
  · intro hj
    exact ⟨Nat.lt_of_lt_of_le (h.lt_of_mem hj) hm, hj⟩

end Holds

/-! ## Loops over the bits of a word -/

/-- Count the one-bits under a mask that is shifted left `k` times. -/
def countLoop (w : BitVec n) : Nat → BitVec n → Nat → Nat
  | 0, _, counter => counter
  | k + 1, mask, counter =>
    countLoop w k (mask <<< 1) (if w &&& mask ≠ 0#n then counter + 1 else counter)

/-- Whether all bits under a mask that is shifted left `k` times are set. -/
def allLoop (w : BitVec n) : Nat → BitVec n → Bool
  | 0, _ => true
  | k + 1, mask => if mask &&& w = 0#n then false else allLoop w k (mask <<< 1)

/-- The first of `k` positions from `j` on whose bit is set, with the word shifted right. -/
def lowestLoop : Nat → Nat → BitVec n → Option Nat
  | 0, _, _ => none
  | k + 1, j, x => if x.getLsbD 0 then some j else lowestLoop k (j + 1) (x >>> 1)

/-- Cut a word down by a mask that is shifted right `k` times. -/
def trimLoop : Nat → BitVec n → BitVec n → BitVec n
  | 0, _, w => w
  | k + 1, mask, w => trimLoop k (mask >>> 1) (w &&& mask)

section Loops

/-- A mask moves on to the next bit. -/
theorem twoPow_shiftLeft_one (n j : Nat) : BitVec.twoPow n j <<< 1 = BitVec.twoPow n (j + 1) := by
  rw [BitVec.twoPow_eq, BitVec.twoPow_eq, BitVec.shiftLeft_add]

theorem and_twoPow_ne_zero_iff (w : BitVec n) (j : Nat) : w &&& BitVec.twoPow n j ≠ 0#n ↔ w.getLsbD j = true := by
  rw [← hasFlag_twoPow, hasFlag, bne_iff_ne]

/-- The loop has counted the bits that the mask has passed. -/
theorem countLoop_eq (w : BitVec n) : ∀ k j counter, countLoop w k (BitVec.twoPow n j) counter =
      counter + (List.range k).countP (fun i => w.getLsbD (j + i)) := by
  intro k
  induction k with
  | zero =>
    intro j counter
    rfl
  | succ k ih =>
    intro j counter
    rw [countLoop, twoPow_shiftLeft_one, ih, List.range_succ_eq_map, List.countP_cons, List.countP_map]
    have hshift : ((fun i => w.getLsbD (j + i)) ∘ Nat.succ) = fun i => w.getLsbD (j + 1 + i) := by
      funext i
      show w.getLsbD (j + (i + 1)) = w.getLsbD (j + 1 + i)
      congr 1
      omega
    rw [hshift]
    by_cases hbit : w.getLsbD j = true
    · rw [if_pos ((and_twoPow_ne_zero_iff w j).mpr hbit)]
      simp only [Nat.add_zero, hbit, if_true]
      omega
    · rw [if_neg (fun h => hbit ((and_twoPow_ne_zero_iff w j).mp h))]
      simp only [Nat.add_zero, hbit]
      simp

/-- The loop has seen ones only. -/
theorem allLoop_iff (w : BitVec n) : ∀ k j,
    allLoop w k (BitVec.twoPow n j) = true ↔ ∀ i < k, w.getLsbD (j + i) = true := by
  intro k
  induction k with
  | zero =>
    intro j
    simp [allLoop]
  | succ k ih =>
    intro j
    rw [allLoop, twoPow_shiftLeft_one, BitVec.and_comm]
    constructor
    · intro h i hi
      split at h
      · cases h
      · rename_i hne
        cases i with
        | zero => exact (and_twoPow_ne_zero_iff w j).mp hne
        | succ i =>
          have := (ih (j + 1)).mp h i (by omega)
          rwa [Nat.add_assoc, Nat.add_comm 1 i] at this
    · intro h
      rw [if_neg ((and_twoPow_ne_zero_iff w j).mpr (h 0 (by omega)))]
      rw [ih]
      intro i hi
      have := h (i + 1) (by omega)
      rwa [Nat.add_comm i 1, ← Nat.add_assoc] at this

/-- The loop stops at the lowest bit that is set. -/
theorem lowestLoop_spec (x : BitVec n) : ∀ k j, match lowestLoop k j x with
    | none => ∀ i < k, x.getLsbD i = false
    | some m => ∃ i < k, m = j + i ∧ x.getLsbD i = true ∧ ∀ i' < i, x.getLsbD i' = false := by
  intro k
  induction k generalizing x with
  | zero =>
    intro j
    simp [lowestLoop]
  | succ k ih =>
    intro j
    rw [lowestLoop]
    by_cases h0 : x.getLsbD 0 = true
    · rw [if_pos h0]
      exact ⟨0, by omega, rfl, h0, by simp⟩
    · rw [if_neg h0]
      have hrest := ih (x >>> 1) (j + 1)
      have hbits : ∀ i, (x >>> 1).getLsbD i = x.getLsbD (i + 1) := by
        intro i
        rw [BitVec.getLsbD_ushiftRight, Nat.add_comm]
      split at hrest
      · intro i hi
        cases i with
        | zero => simpa using h0
        | succ i => rw [← hbits]; exact hrest i (by omega)
      · obtain ⟨i, hi, hm, hbit, hlow⟩ := hrest
        refine ⟨i + 1, by omega, by omega, by rw [← hbits]; exact hbit, ?_⟩
        intro i' hi'
        cases i' with
        | zero => simpa using h0
        | succ i' => rw [← hbits]; exact hlow i' (by omega)

/-- After `k` turns only the bits of the last mask are left. -/
theorem getLsbD_trimLoop : ∀ k m (w : BitVec n) j, (trimLoop k (BitVec.allOnes n >>> m) w).getLsbD j =
      (w.getLsbD j && decide (k = 0 ∨ j + m + k ≤ n)) := by
  intro k
  induction k with
  | zero =>
    intro m w j
    simp [trimLoop]
  | succ k ih =>
    intro m w j
    have hmask : (w &&& BitVec.allOnes n >>> m).getLsbD j = (w.getLsbD j && decide (j + m < n)) := by
      rw [BitVec.getLsbD_and, BitVec.getLsbD_ushiftRight, BitVec.getLsbD_allOnes, Nat.add_comm m j]
    have hcond : (j + m < n ∧ (k = 0 ∨ j + (m + 1) + k ≤ n)) ↔ (k + 1 = 0 ∨ j + m + (k + 1) ≤ n) := by omega
    rw [trimLoop, ← BitVec.shiftRight_add, ih, hmask, Bool.and_assoc, ← Bool.decide_and,
      decide_eq_decide.mpr hcond]

end Loops

end NvpSim.Lib
