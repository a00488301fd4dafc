/-
  `AddrRange`: an interval of addresses, both ends included, of which an interleaved range takes only those with
  one value in some of their bits.

  `intersects` gives up with a panic (`none`) on pairs of interleaved ranges it does not care about; on PLAIN
  ranges, not interleaved, it compares the ends, and that is exact if both are valid (`meets_plain`).  Addresses
  are 64-bit words, so the one subtraction that may wrap, in `size`, is modulo `2 ^ 64`.

  The bits that tell interleaved ranges apart are at positions that no constructor checks.  Where `bits` would
  shift by less than 0 or more than 63, the result is UNDEFINED, also `none` (`containsChecked`).
-/
import NvpSim.Base.Bitfield

namespace NvpSim.Base

structure AddrRange where
  start : Nat
  last : Nat
  intlvHighBit : Nat
  xorHighBit : Nat
  intlvBits : Nat
  intlvMatch : Nat
  deriving DecidableEq, Repr

namespace AddrRange

open Bitfield

/-- `AddrRange(start, end)`: not interleaved. -/
def ofEnds (start last : Nat) : AddrRange := ⟨start, last, 0, 0, 0, 0⟩

/-- `RangeSize(start, size)`. -/
def ofSize (start size : Nat) : AddrRange := ofEnds start (start + size - 1)

def interleaved (r : AddrRange) : Bool := r.intlvBits != 0

def hashed (r : AddrRange) : Bool := r.interleaved && r.xorHighBit != 0

/-- `granularity()`: the size of the regions that the interleaving bits make. -/
def granularity (r : AddrRange) : Nat := 2 ^ (r.intlvHighBit + 1 - r.intlvBits)

def size (r : AddrRange) : Nat := ((2 ^ 64 + r.last - r.start + 1) % 2 ^ 64) >>> r.intlvBits

def valid (r : AddrRange) : Bool := r.start ≤ r.last

def mergesWith (self r : AddrRange) : Bool :=
  r.start == self.start && r.last == self.last && r.intlvHighBit == self.intlvHighBit &&
    r.xorHighBit == self.xorHighBit && r.intlvBits == self.intlvBits

/-- `bits(a, high, high - k + 1)`: the `k` bits from `high` down. -/
def slice (a high k : Nat) : Nat := (bits (.ofNat 64 a) high (high + 1 - k)).toNat

/-- `contains(a)`, if the slices that it reads are there; see `containsChecked`. -/
def contains (self : AddrRange) (a : Nat) : Bool :=
  let inRange := self.start ≤ a && a ≤ self.last
  if !self.interleaved then inRange
  else if inRange then
    if !self.hashed then slice a self.intlvHighBit self.intlvBits == self.intlvMatch
    else
      (slice a self.intlvHighBit self.intlvBits ^^^ slice a self.xorHighBit self.intlvBits) == self.intlvMatch
  else false

/-- The shift that gets at the `k` bits below `high` is by at least 0 and less than 64. -/
def Slice (high k : Nat) : Prop := k ≤ high + 1 ∧ high + 1 - k < 64

instance (high k : Nat) : Decidable (Slice high k) := inferInstanceAs (Decidable (_ ∧ _))

/-- `contains(a)`, undefined (`none`) where it shifts out of bounds. -/
def containsChecked (r : AddrRange) (a : Nat) : Option Bool :=
  if r.interleaved ∧ r.start ≤ a ∧ a ≤ r.last ∧
      ¬ (Slice r.intlvHighBit r.intlvBits ∧ (r.xorHighBit ≠ 0 → Slice r.xorHighBit r.intlvBits)) then none
  else some (r.contains a)

def intersects (self r : AddrRange) : Option Bool :=
  if r.last < self.start ∨ self.last < r.start then some false
  else if !self.interleaved && !r.interleaved then some true
  -- `size()` shifts by the number of bits
  else if 64 ≤ r.intlvBits then none
  else if r.size = 1 then self.containsChecked r.start
  else if self.mergesWith r then some (self.intlvMatch == r.intlvMatch)
  else none

/-- `operator<`. -/
def lt (self r : AddrRange) : Bool :=
  if self.start ≠ r.start then self.start < r.start else self.intlvMatch < r.intlvMatch

/-! ## Plain ranges -/

/-- Some address is in both ranges. -/
def Meets (r r' : AddrRange) : Prop := ∃ a, r.contains a = true ∧ r'.contains a = true

/-- The two intervals reach each other. -/
def Reaches (r r' : AddrRange) : Prop := r.start ≤ r'.last ∧ r'.start ≤ r.last

instance (r r' : AddrRange) : Decidable (Reaches r r') := inferInstanceAs (Decidable (_ ∧ _))

variable {r r' r'' : AddrRange}

theorem contains_plain (h : r.interleaved = false) {a : Nat} : r.contains a = true ↔ r.start ≤ a ∧ a ≤ r.last := by
  simp [contains, h]

theorem intersects_plain (h : r.interleaved = false) (h' : r'.interleaved = false) :
    r.intersects r' = some (decide (Reaches r r')) := by
  unfold intersects
  by_cases hr : Reaches r r'
  · rw [if_neg (by rintro (hlt | hlt) <;> have := hr.1 <;> have := hr.2 <;> omega)]
    simp [h, h', hr]
  · rw [if_pos (by unfold Reaches at hr; omega)]
    simp [hr]

/-- **Plain ranges that are valid meet if and only if they reach each other.** -/
theorem meets_plain (h : r.interleaved = false) (h' : r'.interleaved = false)
    (hv : r.valid = true) (hv' : r'.valid = true) : Meets r r' ↔ Reaches r r' := by
  simp only [valid, decide_eq_true_eq] at hv hv'
  constructor
  · rintro ⟨a, ha, ha'⟩
    rw [contains_plain h] at ha
    rw [contains_plain h'] at ha'
    exact ⟨Nat.le_trans ha.1 ha'.2, Nat.le_trans ha'.1 ha.2⟩
  · rintro ⟨hr, hr'⟩
    -- the later of the two starts is in both
    refine ⟨max r.start r'.start, (contains_plain h).mpr ?_, (contains_plain h').mpr ?_⟩ <;> omega

/-! ## The order of the map -/

theorem lt_iff : r.lt r' = true ↔ r.start < r'.start ∨ (r.start = r'.start ∧ r.intlvMatch < r'.intlvMatch) := by
  unfold lt
  split <;> simp <;> omega

theorem lt_trans (h : r.lt r' = true) (h' : r'.lt r'' = true) : r.lt r'' = true := by
  rw [lt_iff] at *
  omega

theorem start_le_of_lt (h : r.lt r' = true) : r.start ≤ r'.start := by
  rw [lt_iff] at h
  omega

theorem start_le_of_not_lt (h : ¬ r'.lt r = true) : r.start ≤ r'.start := by
  rw [lt_iff] at h
  omega

theorem last_lt_of_lt (h : r.lt r' = true) (hv' : r'.valid = true) (hr : ¬ Reaches r r') : r.last < r'.start := by
  have hle := start_le_of_lt h
  simp only [valid, decide_eq_true_eq] at hv'
  unfold Reaches at hr
  omega

end AddrRange

end NvpSim.Base
