/-
  Flag words: a machine word whose bits are independent flags.

  C++ code tests such a word with `w & mask`, sets with `w |= mask` and clears with `w &= ~mask`.  For a ONE-BIT
  mask `twoPow n i` they behave like a set of positions: setting or clearing bit `i` is seen by the test of bit
  `j` only when `i = j`.
-/

namespace NvpSim.Lib

variable {n : Nat}

/-- `w & mask`, as a truth value. -/
def hasFlag (w mask : BitVec n) : Bool := (w &&& mask) != 0#n

/-- `w |= mask`. -/
def setFlag (w mask : BitVec n) : BitVec n := w ||| mask

/-- `w &= ~mask`. -/
def clearFlag (w mask : BitVec n) : BitVec n := w &&& ~~~mask

theorem hasFlag_twoPow (w : BitVec n) (i : Nat) : hasFlag w (BitVec.twoPow n i) = w.getLsbD i := by
  unfold hasFlag
  rw [BitVec.and_twoPow]
  cases hbit : w.getLsbD i with
  | false => simp
  | true =>
    -- the bit is there, so the position is inside the word and the mask is not zero
    have hi : i < n := BitVec.lt_of_getLsbD hbit
    have hne : BitVec.twoPow n i ≠ 0#n := by
      intro h0
      have := congrArg (fun v => BitVec.getLsbD v i) h0
      simp [hi] at this
    simpa using hne

theorem hasFlag_setFlag_twoPow (w : BitVec n) {i j : Nat} (hj : j < n) :
    hasFlag (setFlag w (BitVec.twoPow n i)) (BitVec.twoPow n j) =
      (hasFlag w (BitVec.twoPow n j) || decide (i = j)) := by
  rw [hasFlag_twoPow, hasFlag_twoPow, setFlag, BitVec.getLsbD_or, BitVec.getLsbD_twoPow]
  by_cases hij : i = j
  · subst hij; simp [hj]
  · simp [hij]

theorem hasFlag_clearFlag_twoPow (w : BitVec n) {i j : Nat} (hj : j < n) :
    hasFlag (clearFlag w (BitVec.twoPow n i)) (BitVec.twoPow n j) =
      (hasFlag w (BitVec.twoPow n j) && !decide (i = j)) := by
  rw [hasFlag_twoPow, hasFlag_twoPow, clearFlag, BitVec.getLsbD_and, BitVec.getLsbD_not, BitVec.getLsbD_twoPow]
  by_cases hij : i = j
  · subst hij; simp [hj]
  · simp [hij, hj]

end NvpSim.Lib
