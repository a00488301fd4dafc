/-
  Ruby's `Set` (`mem/ruby/common/Set.{hh,cc}`): a set of node numbers in an array of `unsigned long`s, on a host
  where these have 64 bits.

  `LONG_BITS` is meant to be the width of a word and is computed as `numeric_limits<unsigned long>::digits + 1`:
  for a SIGNED type, whose digits leave out the sign, the sum would be the width; for the unsigned type it is
  65.  `INDEX_SHIFT` and `INDEX_MASK` follow from it, and so an element is looked up in words of 32 bits, of
  which one is allocated per 65 elements.

  An access outside the array, a failed `assert` and a `panic` are `none`.
-/
import NvpSim.Lib.BitSet

namespace NvpSim.Ruby

open NvpSim.Lib

/-- `LONG_BITS`: one more than the digits of an `unsigned long`. -/
def longBits : Nat := 64 + 1

def indexShift : Nat := if longBits = 64 then 6 else 5

def indexMask : Nat := (1 <<< indexShift) - 1

/-- `m_nArrayLen` of a set of the given size. -/
def arrayLen (size : Nat) : Nat := (size + longBits - 1) / longBits

/-- `Set`; the array has the length that `setSize` gives it. -/
structure RubySet where
  nSize : Nat
  array : List (BitVec 64)
  length_array : array.length = arrayLen nSize

namespace RubySet

/-- `Set(size)`, or `setSize(size)`: an empty set. -/
def ofSize (size : Nat) : RubySet where
  nSize := size
  array := List.replicate (arrayLen size) 0
  length_array := List.length_replicate

/-- The word and the bit of an element. -/
def wordOf (index : Nat) : Nat := index >>> indexShift

def bitOf (index : Nat) : BitVec 64 := 1#64 <<< (index &&& indexMask)

/-- Update a word of the array. -/
def setWord (s : RubySet) (i : Nat) (f : BitVec 64 → BitVec 64) : Option RubySet :=
  if i < s.array.length then
    some { s with
      array := s.array.modify i f
      length_array := by rw [List.length_modify]; exact s.length_array }
  else none

def add (s : RubySet) (index : Nat) : Option RubySet :=
  s.setWord (wordOf index) fun w => w ||| bitOf index

def remove (s : RubySet) (index : Nat) : Option RubySet :=
  s.setWord (wordOf index) fun w => w &&& ~~~bitOf index

/-- Combine two sets word by word; their sizes are asserted to be equal. -/
def combine (f : BitVec 64 → BitVec 64 → BitVec 64) (s t : RubySet) : Option RubySet :=
  if h : s.nSize = t.nSize then
    some { s with
      array := List.zipWith f s.array t.array
      length_array := by
        rw [List.length_zipWith, s.length_array, t.length_array, h, Nat.min_self] }
  else none

def addSet (s t : RubySet) : Option RubySet := combine (fun w v => w ||| v) s t

def removeSet (s t : RubySet) : Option RubySet := combine (fun w v => w &&& ~~~v) s t

def or (s t : RubySet) : Option RubySet := combine (fun w v => w ||| v) s t

def and (s t : RubySet) : Option RubySet := combine (fun w v => w &&& v) s t

/-- Set every word to the same value. -/
def fill (s : RubySet) (w : BitVec 64) : RubySet where
  nSize := s.nSize
  array := s.array.map fun _ => w
  length_array := by rw [List.length_map]; exact s.length_array

def clear (s : RubySet) : RubySet := s.fill 0

/-- `clearExcess()`: the mask starts without the highest bit. -/
def clearExcess (s : RubySet) : Option RubySet :=
  if s.nSize % longBits ≠ 0 then
    s.setWord (s.array.length - 1) (trimLoop (64 - (s.nSize &&& indexMask)) (BitVec.allOnes 64 >>> 1))
  else some s

def broadcast (s : RubySet) : Option RubySet := (s.fill (BitVec.allOnes 64)).clearExcess

def isElement (s : RubySet) (element : Nat) : Option Bool :=
  (s.array[wordOf element]?).map fun w => w &&& bitOf element != 0

def count (s : RubySet) : Nat := s.array.foldl (fun counter w => countLoop w longBits 1 counter) 0

/-- Compare two sets word by word. -/
def compare (f : BitVec 64 → BitVec 64 → Bool) (s t : RubySet) : Bool :=
  (List.zipWith f s.array t.array).all id

def isEqual (s t : RubySet) : Option Bool :=
  if s.nSize = t.nSize then some (compare (fun w v => w == v) s t) else none

def isSuperset (s test : RubySet) : Option Bool :=
  if s.nSize = test.nSize then
    some (compare (fun w v => (v &&& w) ||| ~~~v == BitVec.allOnes 64) s test)
  else none

/-- `intersectionIsEmpty(other_set)`, which asserts nothing and reads the other array. -/
def intersectionIsEmpty (s t : RubySet) : Option Bool :=
  if s.array.length ≤ t.array.length then some (compare (fun w v => w &&& v == 0) s t) else none

def isEmpty (s : RubySet) : Bool := s.array.all fun w => w == 0

/-- The last word of `isBroadcast()`, of which the first `bits` bits are looked at. -/
def lastLoaded (s : RubySet) (bits : Nat) : Option Bool :=
  if bits = 0 then some true
  else (s.array[s.array.length - 1]?).map fun w => allLoop w bits 1

def isBroadcast (s : RubySet) : Option Bool :=
  let max := if s.nSize % longBits = 0 then s.array.length else s.array.length - 1
  if (s.array.take max).all (fun w => w == BitVec.allOnes 64) then
    s.lastLoaded (s.nSize % longBits)
  else some false

/-- The loop of `smallestElement()` over the words, from number `i` on. -/
def smallestLoop : Nat → List (BitVec 64) → Option Nat
  | _, [] => none
  | i, w :: ws => if w ≠ 0 then lowestLoop longBits (longBits * i) w else smallestLoop (i + 1) ws

def smallestElement (s : RubySet) : Option Nat :=
  if 0 < s.count then smallestLoop 0 s.array else none

end RubySet

/-! ## Sequences of operations -/

/-- An operation on numbered sets of one size; the last number is that of the set that gets the result. -/
inductive SetOp where
  | add (i index : Nat)
  | remove (i index : Nat)
  | addSet (i j : Nat)
  | removeSet (i j : Nat)
  | clear (i : Nat)
  | broadcast (i : Nat)
  | or (i j k : Nat)
  | and (i j k : Nat)
  deriving DecidableEq, Repr

namespace SetOp

/-- Carry out an operation on the sets. -/
def run (regs : Nat → RubySet) : SetOp → Option (Nat → RubySet)
  | .add i index => ((regs i).add index).map (Function.update regs i)
  | .remove i index => ((regs i).remove index).map (Function.update regs i)
  | .addSet i j => ((regs i).addSet (regs j)).map (Function.update regs i)
  | .removeSet i j => ((regs i).removeSet (regs j)).map (Function.update regs i)
  | .clear i => some (Function.update regs i (regs i).clear)
  | .broadcast i => ((regs i).broadcast).map (Function.update regs i)
  | .or i j k => ((regs i).or (regs j)).map (Function.update regs k)
  | .and i j k => ((regs i).and (regs j)).map (Function.update regs k)

/-- What the operation means for subsets of `{0, …, n - 1}`. -/
def mean (n : Nat) (sets : Nat → Finset Nat) : SetOp → Nat → Finset Nat
  | .add i index => Function.update sets i (insert index (sets i))
  | .remove i index => Function.update sets i ((sets i).erase index)
  | .addSet i j => Function.update sets i (sets i ∪ sets j)
  | .removeSet i j => Function.update sets i (sets i \ sets j)
  | .clear i => Function.update sets i ∅
  | .broadcast i => Function.update sets i (Finset.range n)
  | .or i j k => Function.update sets k (sets i ∪ sets j)
  | .and i j k => Function.update sets k (sets i ∩ sets j)

/-- Only elements of `{0, …, n - 1}` are added and removed. -/
def Within (n : Nat) : SetOp → Prop
  | .add _ index | .remove _ index => index < n
  | _ => True

instance (n : Nat) (op : SetOp) : Decidable (op.Within n) :=
  match op with
  | .add _ _ | .remove _ _ => inferInstanceAs (Decidable (_ < _))
  | .addSet _ _ | .removeSet _ _ | .clear _ | .broadcast _ | .or _ _ _ | .and _ _ _ =>
    isTrue trivial

end SetOp

end NvpSim.Ruby
