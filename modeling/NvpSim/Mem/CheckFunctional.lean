/-
  `Packet::checkFunctional` (`mem/packet.cc`): a functional access meets the data in flight.

  A functional READ is checked against one memory value after the other, and takes from each the bytes that it
  has.  `bytesValid` says which bytes have been supplied; it stays empty until the first partial overlap.

  Two of the four kinds of partial overlap are ONE BYTE SHORT: a value that ends inside the read, and one that
  starts inside it, lose the last byte of the intersection.  And a byte is overwritten by the next value that
  has it, so it is the LAST value that wins.

  Addresses do not wrap around; the ends are integers, so that an empty range ends before it starts.
-/
import Mathlib.Data.List.GetD
import NvpSim.Lib.Run
import NvpSim.Mem.Packet

namespace NvpSim.Mem

open NvpSim.Lib List

/-! ## The program -/

def MemCmd.isPrint (cmd : MemCmd) : Bool := cmd.testCmdAttrib .isPrint

/-- What a functional access is checked against: the arguments `addr`, `is_secure`, `size` and
    `_data` of `checkFunctional`. -/
structure MemValue where
  addr : Addr
  isSecure : Bool
  size : Nat
  data : Option (Buffer Byte)

/-- A packet with its `bytesValid`. -/
structure FunctionalPacket where
  pkt : Packet
  bytesValid : List Bool

namespace FunctionalPacket

variable (f : FunctionalPacket) (v : MemValue)

/-- `func_start`, `func_end`, `val_start`, `val_end`. -/
def funcStart : Int := f.pkt.addr
def funcEnd : Int := f.pkt.addr + f.pkt.size - 1

end FunctionalPacket

def MemValue.valStart (v : MemValue) : Int := v.addr
def MemValue.valEnd (v : MemValue) : Int := v.addr + v.size - 1

namespace FunctionalPacket

/-- `for (; all_bytes_valid && i < i + n; ++i) all_bytes_valid &= bytesValid[i]`. -/
def allValid (valid : List Bool) (i : Nat) : Nat → Bool
  | 0 => true
  | n + 1 => valid.getD i false && allValid valid (i + 1) n

/-- `for (; i < i + n; ++i) bytesValid[i] = true`. -/
def markValid (valid : List Bool) (i : Nat) : Nat → List Bool
  | 0 => valid
  | n + 1 => markValid (valid.set i true) (i + 1) n

/-- `val_offset`, `func_offset` and `overlap_size` of a partial overlap; `none` is the `panic`. -/
def overlap (f : FunctionalPacket) (v : MemValue) : Option (Nat × Nat × Nat) :=
  if v.valStart < f.funcStart ∧ v.valEnd ≤ f.funcEnd then
    -- starts before and ends before or the same
    some ((f.funcStart - v.valStart).toNat, 0, (v.valEnd - f.funcStart).toNat)
  else if v.valStart ≥ f.funcStart ∧ v.valEnd > f.funcEnd then
    -- starts after or the same, and ends after
    some (0, (v.valStart - f.funcStart).toNat, (f.funcEnd - v.valStart).toNat)
  else if v.valStart ≥ f.funcStart ∧ v.valEnd ≤ f.funcEnd then
    -- completely subsumed in the packet
    some (0, (v.valStart - f.funcStart).toNat, v.size)
  else if v.valStart < f.funcStart ∧ v.valEnd > f.funcEnd then
    -- the packet is completely subsumed
    some ((f.funcStart - v.valStart).toNat, 0, (f.funcEnd - f.funcStart).toNat)
  else none

/-- `bytesValid`, initialised if it has not been used already. -/
def tracked (f : FunctionalPacket) : List Bool :=
  if f.bytesValid.isEmpty then replicate f.pkt.size false else f.bytesValid

/-- The copy of a partial overlap, the update of `bytesValid`, and `all_bytes_valid`. -/
def copyPartial (f : FunctionalPacket) (data : Buffer Byte)
    (valOffset funcOffset overlapSize : Nat) : FunctionalPacket × Bool :=
  let pkt := { f.pkt with data := memcpy f.pkt.data funcOffset data valOffset overlapSize }
  let before := allValid f.tracked 0 funcOffset
  let valid := markValid f.tracked funcOffset overlapSize
  let after := allValid valid (funcOffset + overlapSize) (f.pkt.size - (funcOffset + overlapSize))
  (⟨pkt, valid⟩, before && after)

/-- The branch of a read. -/
def readFunctional (f : FunctionalPacket) (v : MemValue) (data : Buffer Byte) : Option (FunctionalPacket × Bool) :=
  if f.funcStart ≥ v.valStart ∧ f.funcEnd ≤ v.valEnd then
    -- complete overlap, and as the current packet is a read we are done
    let pkt := { f.pkt with
      data := memcpy f.pkt.data 0 data (f.funcStart - v.valStart).toNat f.pkt.size }
    let valid := if f.bytesValid.isEmpty then replicate f.pkt.size true else f.bytesValid
    some (⟨pkt, valid⟩, true)
  else (f.overlap v).map fun o => f.copyPartial data o.1 o.2.1 o.2.2

/-- The branch of a write: the value afterwards. -/
def writeFunctional (f : FunctionalPacket) (v : MemValue) (data : Buffer Byte) : Buffer Byte :=
  let offset := f.funcStart - v.valStart
  if offset ≥ 0 then
    memcpy data offset.toNat f.pkt.data 0 (min f.funcEnd v.valEnd - f.funcStart + 1).toNat
  else
    memcpy data 0 f.pkt.data (-offset).toNat (min f.funcEnd v.valEnd - v.valStart + 1).toNat

/-- `checkFunctional(obj, addr, is_secure, size, _data)`: the packet, the value, and what is
    returned; `none` is a failed assertion or a `panic`. -/
def checkFunctional (f : FunctionalPacket) (v : MemValue) : Option (FunctionalPacket × MemValue × Bool) :=
  if v.isSecure ≠ f.pkt.isSecure ∨ f.funcStart > v.valEnd ∨ v.valStart > f.funcEnd then
    -- no intersection
    some (f, v, false)
  else if f.pkt.cmd.isPrint then
    if v.data.isSome then none else some (f, v, false)
  else
    match v.data with
    | none => some (f, v, false)
    | some data =>
      if f.pkt.cmd.isRead then (f.readFunctional v data).map fun r => (r.1, v, r.2)
      else if f.pkt.cmd.isWrite then
        some (f, { v with data := some (f.writeFunctional v data) }, false)
      else none

/-- The packet after a check, whatever was returned. -/
def step (f : FunctionalPacket) (v : MemValue) : Option FunctionalPacket :=
  (f.checkFunctional v).map Prod.fst

/-! ## What is to be collected -/

end FunctionalPacket

/-- The value has the byte of the read at offset `i`. -/
def MemValue.covers (v : MemValue) (pkt : Packet) (i : Nat) : Bool :=
  v.data.isSome && v.isSecure == pkt.isSecure &&
    decide (v.valStart ≤ pkt.addr + i ∧ pkt.addr + i ≤ v.valEnd)

/-- The byte that the value has for the offset `i` of the read. -/
def MemValue.byteFor (v : MemValue) (pkt : Packet) (i : Nat) : Byte :=
  (v.data.getD fun _ => 0) (pkt.addr + i - v.valStart).toNat

/-- The bytes of the read after the values `vs`: each from the FIRST value that covers it. -/
def collected (pkt : Packet) (vs : List MemValue) : Buffer Byte := fun i =>
  if i < pkt.size then
    match vs.find? (MemValue.covers · pkt i) with
    | some v => v.byteFor pkt i
    | none => pkt.data i
  else pkt.data i

namespace FunctionalPacket

/-- The byte has been supplied. -/
def valid (f : FunctionalPacket) (i : Nat) : Bool := f.bytesValid.getD i false

/-- The read and its `bytesValid` are as they should be after the values `vs`. -/
structure Collected (pkt : Packet) (vs : List MemValue) (f : FunctionalPacket) : Prop where
  pkt_eq : f.pkt = { pkt with data := collected pkt vs }
  valid_eq : ∀ i, i < pkt.size → f.valid i = vs.any (MemValue.covers · pkt i)

/-- The value counts: it intersects the read and has data. -/
def Counts (f : FunctionalPacket) (v : MemValue) : Prop :=
  v.isSecure = f.pkt.isSecure ∧ v.data.isSome = true ∧ f.funcStart ≤ v.valEnd ∧ v.valStart ≤ f.funcEnd

instance (f : FunctionalPacket) (v : MemValue) : Decidable (f.Counts v) :=
  inferInstanceAs (Decidable (_ ∧ _ ∧ _ ∧ _))

/-- The value lies inside the read, or the read inside the value. -/
def Nested (f : FunctionalPacket) (v : MemValue) : Prop :=
  (f.funcStart ≤ v.valStart ∧ v.valEnd ≤ f.funcEnd) ∨ (v.valStart ≤ f.funcStart ∧ f.funcEnd ≤ v.valEnd)

instance (f : FunctionalPacket) (v : MemValue) : Decidable (f.Nested v) :=
  inferInstanceAs (Decidable (_ ∨ _))

/-- The condition on a check: the read is not complete yet, and a value that counts has a byte, is
    nested with the read, and has none of the bytes that have been supplied. -/
def Benign (f : FunctionalPacket) (v : MemValue) : Prop :=
  (∃ i, i < f.pkt.size ∧ f.valid i = false) ∧ (f.Counts v → 0 < v.size ∧ f.Nested v ∧
      ∀ i, i < f.pkt.size → v.covers f.pkt i = true → f.valid i = false)

instance (f : FunctionalPacket) (v : MemValue) : Decidable (f.Benign v) :=
  inferInstanceAs (Decidable (_ ∧ (_ → _ ∧ _ ∧ _)))

/-! ## The loops over `bytesValid` -/

theorem length_markValid (valid : List Bool) (i n : Nat) : (markValid valid i n).length = valid.length := by
  induction n generalizing valid i with
  | zero => rfl
  | succ n ih => rw [markValid, ih, length_set]

theorem getD_markValid (valid : List Bool) (i n j : Nat) (hj : j < valid.length) :
    (markValid valid i n).getD j false = (valid.getD j false || decide (i ≤ j ∧ j < i + n)) := by
  induction n generalizing valid i with
  | zero =>
    have hno : ¬ (i ≤ j ∧ j < i + 0) := by omega
    rw [markValid, decide_eq_false hno, Bool.or_false]
  | succ n ih =>
    rw [markValid, ih _ _ (by rwa [length_set]), getD_eq_getElem?_getD, getElem?_set, getD_eq_getElem?_getD]
    by_cases hij : i = j
    · subst hij
      simp [hj]
    · have hrange : (i + 1 ≤ j ∧ j < i + 1 + n) ↔ (i ≤ j ∧ j < i + (n + 1)) := by omega
      rw [if_neg hij, decide_eq_decide.mpr hrange]

theorem allValid_iff (valid : List Bool) (i n : Nat) :
    allValid valid i n = true ↔ ∀ j, i ≤ j → j < i + n → valid.getD j false = true := by
  induction n generalizing i with
  | zero =>
    refine ⟨fun _ j hij hj => ?_, fun _ => rfl⟩
    omega
  | succ n ih =>
    rw [allValid, Bool.and_eq_true, ih]
    constructor
    · rintro ⟨hi, hrest⟩ j hij hj
      rcases Nat.eq_or_lt_of_le hij with rfl | hlt
      · exact hi
      · exact hrest j hlt (by omega)
    · intro h
      exact ⟨h i (Nat.le_refl i) (by omega), fun j hij hj => h j (by omega) (by omega)⟩

/-! ## One check -/

/-- `bytesValid` is empty, or it has a place for each byte and at least one has been supplied. -/
def Shaped (f : FunctionalPacket) : Prop :=
  f.bytesValid = [] ∨ (f.bytesValid.length = f.pkt.size ∧ ∃ i, i < f.pkt.size ∧ f.valid i = true)

/-- What a check against `v` is to do: take the bytes that `v` covers, mark them, and tell whether
    all are there. -/
structure Supplied (v : MemValue) (f f' : FunctionalPacket) (done : Bool) : Prop where
  pkt_eq : f'.pkt = { f.pkt with
    data := fun i => if i < f.pkt.size ∧ v.covers f.pkt i = true then v.byteFor f.pkt i
      else f.pkt.data i }
  valid_eq : ∀ i, i < f.pkt.size → f'.valid i = (f.valid i || v.covers f.pkt i)
  shaped : f'.Shaped
  done_iff : done = true ↔ ∀ i, i < f.pkt.size → f'.valid i = true

variable {f : FunctionalPacket} {v : MemValue} {data : Buffer Byte}

theorem covers_iff (hc : f.Counts v) (i : Nat) :
    v.covers f.pkt i = true ↔ v.valStart ≤ f.funcStart + i ∧ f.funcStart + i ≤ v.valEnd := by
  unfold MemValue.covers
  rw [hc.1, hc.2.1]
  simp [funcStart]

theorem covers_of_not_counts (hc : ¬ f.Counts v) {i : Nat} (hi : i < f.pkt.size) : v.covers f.pkt i = false := by
  rw [Bool.eq_false_iff]
  intro hcov
  unfold MemValue.covers at hcov
  simp only [Bool.and_eq_true, beq_iff_eq, decide_eq_true_eq] at hcov
  obtain ⟨⟨hdata, hsecure⟩, hle, hlt⟩ := hcov
  apply hc
  unfold Counts funcStart funcEnd
  exact ⟨hsecure, hdata, by omega, by omega⟩

/-- **A value that does not count** changes nothing. -/
theorem supplied_of_not_counts (hshape : f.Shaped) (hopen : ∃ i, i < f.pkt.size ∧ f.valid i = false)
    (hc : ¬ f.Counts v) : Supplied v f f false := by
  constructor
  · have hsame : (fun i => if i < f.pkt.size ∧ v.covers f.pkt i = true then
        v.byteFor f.pkt i else f.pkt.data i) = f.pkt.data := by
      funext i
      rw [if_neg]
      rintro ⟨hi, hcov⟩
      rw [covers_of_not_counts hc hi] at hcov
      cases hcov
    rw [hsame]
  · intro i hi
    rw [covers_of_not_counts hc hi, Bool.or_false]
  · exact hshape
  · refine ⟨nofun, fun h => ?_⟩
    obtain ⟨i, hi, hno⟩ := hopen
    rw [h i hi] at hno
    cases hno

theorem byteFor_of_data (hdata : v.data = some data) (i : Nat) :
    v.byteFor f.pkt i = data (f.funcStart + i - v.valStart).toNat := by
  unfold MemValue.byteFor
  rw [hdata]
  rfl

/-- **A value that spans the read** supplies all of it. -/
theorem supplied_of_spans (hsize : 0 < f.pkt.size) (hshape : f.Shaped) (hc : f.Counts v)
    (hdata : v.data = some data) (hspan : v.valStart ≤ f.funcStart ∧ f.funcEnd ≤ v.valEnd)
    (hfresh : ∀ i, i < f.pkt.size → v.covers f.pkt i = true → f.valid i = false) :
    ∃ f', f.readFunctional v data = some (f', true) ∧ Supplied v f f' true := by
  have hend : f.funcEnd = f.funcStart + f.pkt.size - 1 := rfl
  have hall : ∀ i, i < f.pkt.size → v.covers f.pkt i = true := by
    intro i hi
    rw [covers_iff hc]
    omega
  -- nothing has been supplied yet
  have hempty : f.bytesValid = [] := by
    rcases hshape with hempty | ⟨-, i, hi, hvalid⟩
    · exact hempty
    · rw [hfresh i hi (hall i hi)] at hvalid
      cases hvalid
  unfold readFunctional
  rw [if_pos ⟨hspan.1, hspan.2⟩, hempty]
  refine ⟨_, rfl, ?_⟩
  have hvalid : ∀ i, i < f.pkt.size → (replicate f.pkt.size true).getD i false = true :=
    fun i hi => getD_replicate _ hi
  constructor
  · have hbytes : memcpy f.pkt.data 0 data (f.funcStart - v.valStart).toNat f.pkt.size = fun i =>
        if i < f.pkt.size ∧ v.covers f.pkt i = true then v.byteFor f.pkt i
        else f.pkt.data i := by
      funext i
      by_cases hi : i < f.pkt.size
      · rw [memcpy_of_mem (Nat.zero_le i) (by omega), if_pos ⟨hi, hall i hi⟩, byteFor_of_data hdata]
        congr 1
        omega
      · rw [memcpy_of_notMem (Or.inr (by omega)), if_neg fun h => hi h.1]
    rw [hbytes]
  · intro i hi
    rw [hall i hi, Bool.or_true]
    exact hvalid i hi
  · exact Or.inr ⟨length_replicate, 0, hsize, hvalid 0 hsize⟩
  · exact ⟨fun _ => hvalid, fun _ => rfl⟩

theorem tracked_spec (hshape : f.Shaped) :
    f.tracked.length = f.pkt.size ∧ ∀ i, i < f.pkt.size → f.tracked.getD i false = f.valid i := by
  unfold tracked valid
  rcases hshape with hempty | ⟨hlen, i, hi, -⟩
  · rw [hempty]
    exact ⟨length_replicate, fun i hi => getD_replicate _ hi⟩
  · have hne : ¬ f.bytesValid.isEmpty = true := by
      intro hempty
      rw [isEmpty_iff.mp hempty] at hlen
      rw [← hlen] at hi
      exact absurd hi (Nat.not_lt_zero i)
    rw [if_neg hne]
    exact ⟨hlen, fun _ _ => rfl⟩

/-- **A copy from the start of the value**: it covers the bytes from `a` on, `n` of them. -/
theorem copyPartial_spec (hshape : f.Shaped) (hc : f.Counts v) (hdata : v.data = some data)
    {a : Nat} (hstart : v.valStart = f.funcStart + a) (hn : 0 < v.size) (hle : a + v.size ≤ f.pkt.size) :
    Supplied v f (f.copyPartial data 0 a v.size).1 (f.copyPartial data 0 a v.size).2 := by
  obtain ⟨hlen, htracked⟩ := tracked_spec hshape
  have hend : v.valEnd = v.valStart + v.size - 1 := rfl
  have hcovers : ∀ i, v.covers f.pkt i = true ↔ a ≤ i ∧ i < a + v.size := by
    intro i
    rw [covers_iff hc]
    omega
  have hmark : ∀ i, i < f.pkt.size →
      (markValid f.tracked a v.size).getD i false = (f.valid i || v.covers f.pkt i) := by
    intro i hi
    rw [getD_markValid f.tracked a v.size i (by omega), htracked i hi]
    congr 1
    rw [Bool.eq_iff_iff, decide_eq_true_eq, hcovers i]
  unfold copyPartial
  constructor
  · have hbytes : memcpy f.pkt.data a data 0 v.size = fun i =>
        if i < f.pkt.size ∧ v.covers f.pkt i = true then v.byteFor f.pkt i else f.pkt.data i := by
      funext i
      by_cases hi : a ≤ i ∧ i < a + v.size
      · rw [memcpy_of_mem hi.1 hi.2, if_pos ⟨by omega, (hcovers i).mpr hi⟩, byteFor_of_data hdata]
        congr 1
        omega
      · rw [memcpy_of_notMem (by omega), if_neg fun h => hi ((hcovers i).mp h.2)]
    rw [hbytes]
  · exact hmark
  · refine Or.inr ⟨(length_markValid ..).trans hlen, a, ?_, ?_⟩
    · show a < f.pkt.size
      omega
    · show (markValid f.tracked a v.size).getD a false = true
      rw [hmark a (by omega), (hcovers a).mpr (by omega), Bool.or_true]
  · show (allValid _ _ _ && allValid _ _ _) = true ↔
      ∀ i, i < f.pkt.size → (markValid f.tracked a v.size).getD i false = true
    rw [Bool.and_eq_true, allValid_iff, allValid_iff]
    constructor
    · rintro ⟨hbefore, hafter⟩ i hi
      -- before the copy, in it, or after it
      rcases Nat.lt_or_ge i a with hlt | hge
      · rw [hmark i hi, ← htracked i hi, hbefore i (Nat.zero_le i) (by omega), Bool.true_or]
      · rcases Nat.lt_or_ge i (a + v.size) with hin | hout
        · rw [hmark i hi, (hcovers i).mpr ⟨hge, hin⟩, Bool.or_true]
        · exact hafter i hout (by omega)
    · intro hall
      refine ⟨fun i _ hi => ?_, fun i _ hi => hall i (by omega)⟩
      have hcov : v.covers f.pkt i = false := by
        rw [Bool.eq_false_iff]
        intro hcov
        have hrange := (hcovers i).mp hcov
        omega
      have hvalid := hall i (by omega)
      rwa [hmark i (by omega), hcov, Bool.or_false, ← htracked i (by omega)] at hvalid

/-- **A value inside the read** supplies its bytes. -/
theorem supplied_of_inside (hshape : f.Shaped) (hc : f.Counts v) (hdata : v.data = some data)
    (hn : 0 < v.size) (hin : f.funcStart ≤ v.valStart ∧ v.valEnd ≤ f.funcEnd)
    (hspan : ¬ (v.valStart ≤ f.funcStart ∧ f.funcEnd ≤ v.valEnd)) :
    ∃ f' done, f.readFunctional v data = some (f', done) ∧ Supplied v f f' done := by
  have hend : v.valEnd = v.valStart + v.size - 1 := rfl
  have hfend : f.funcEnd = f.funcStart + f.pkt.size - 1 := rfl
  have hoverlap : f.overlap v = some (0, (v.valStart - f.funcStart).toNat, v.size) := by
    unfold overlap
    rw [if_neg (by omega), if_neg (by omega), if_pos hin]
  unfold readFunctional
  rw [if_neg hspan, hoverlap]
  exact ⟨_, _, rfl, copyPartial_spec (a := (v.valStart - f.funcStart).toNat) hshape hc hdata (by omega) hn (by omega)⟩

theorem isPrint_of_isRead {cmd : MemCmd} (h : cmd.isRead = true) : cmd.isPrint = false := by
  cases cmd <;> revert h <;> decide

/-- **One check of a read.** -/
theorem checkFunctional_spec (hread : f.pkt.cmd.isRead = true) (hsize : 0 < f.pkt.size)
    (hshape : f.Shaped) (hben : f.Benign v) :
    ∃ f' done, f.checkFunctional v = some (f', v, done) ∧ Supplied v f f' done := by
  obtain ⟨hopen, hbenign⟩ := hben
  have hprint : ¬ f.pkt.cmd.isPrint = true := by
    rw [isPrint_of_isRead hread]
    decide
  unfold checkFunctional
  by_cases hc : f.Counts v
  · obtain ⟨hn, hnested, hfresh⟩ := hbenign hc
    obtain ⟨data, hdata⟩ := Option.isSome_iff_exists.mp hc.2.1
    have hmeet : ¬ (v.isSecure ≠ f.pkt.isSecure ∨ f.funcStart > v.valEnd ∨ v.valStart > f.funcEnd) := by
      rintro (hne | hgt | hgt)
      · exact hne hc.1
      · exact absurd hc.2.2.1 (not_le.mpr hgt)
      · exact absurd hc.2.2.2 (not_le.mpr hgt)
    rw [if_neg hmeet, if_neg hprint, hdata]
    dsimp only
    rw [if_pos hread]
    by_cases hspan : v.valStart ≤ f.funcStart ∧ f.funcEnd ≤ v.valEnd
    · obtain ⟨f', hf', hsupplied⟩ := supplied_of_spans hsize hshape hc hdata hspan hfresh
      rw [hf']
      exact ⟨f', true, rfl, hsupplied⟩
    · obtain ⟨f', done, hf', hsupplied⟩ :=
        supplied_of_inside hshape hc hdata hn (hnested.resolve_right hspan) hspan
      rw [hf']
      exact ⟨f', done, rfl, hsupplied⟩
  · refine ⟨f, false, ?_, supplied_of_not_counts hshape hopen hc⟩
    by_cases hmeet : v.isSecure ≠ f.pkt.isSecure ∨ f.funcStart > v.valEnd ∨ v.valStart > f.funcEnd
    · rw [if_pos hmeet]
    · have hnone : v.data = none := by
        rw [← Option.not_isSome_iff_eq_none]
        intro hsome
        rw [not_or, not_or, not_ne_iff, not_lt, not_lt] at hmeet
        exact hc ⟨hmeet.1, hsome, hmeet.2.1, hmeet.2.2⟩
      rw [if_neg hmeet, if_neg hprint, hnone]

/-! ## Every sequence of checks -/

variable {pkt : Packet} {vs : List MemValue}

theorem collected_snoc
    (hfresh : ∀ i, i < pkt.size → v.covers pkt i = true → vs.any (MemValue.covers · pkt i) = false) :
    collected pkt (vs ++ [v]) = fun i =>
      if i < pkt.size ∧ v.covers pkt i = true then v.byteFor pkt i else collected pkt vs i := by
  funext i
  unfold collected
  by_cases hi : i < pkt.size
  · rw [if_pos hi, if_pos hi, find?_append]
    cases hcov : v.covers pkt i with
    | true =>
      have hnone : vs.find? (MemValue.covers · pkt i) = none := by
        rw [find?_eq_none]
        exact any_eq_false.mp (hfresh i hi hcov)
      rw [hnone, if_pos ⟨hi, rfl⟩]
      simp [hcov]
    | false =>
      rw [if_neg (by simp)]
      cases vs.find? (MemValue.covers · pkt i) with
      | some w => rfl
      | none => simp [hcov]
  · rw [if_neg hi, if_neg hi, if_neg fun h => hi h.1]

theorem Collected.supplied {f' : FunctionalPacket} {done : Bool} (h : Collected pkt vs f) (hs : Supplied v f f' done)
    (hfresh : ∀ i, i < pkt.size → v.covers pkt i = true → f.valid i = false) : Collected pkt (vs ++ [v]) f' := by
  obtain ⟨hpkt, hvalid⟩ := h
  obtain ⟨fpkt, fvalid⟩ := f
  cases hpkt
  constructor
  · rw [hs.pkt_eq, collected_snoc fun i hi hcov => (hvalid i hi).symm.trans (hfresh i hi hcov)]
    rfl
  · intro i hi
    rw [hs.valid_eq i hi, hvalid i hi, any_append, any_cons, any_nil, Bool.or_false]
    rfl

/-- What a run keeps. -/
structure Reading (pkt : Packet) (vs : List MemValue) (f : FunctionalPacket) : Prop
    extends Collected pkt vs f where
  shaped : f.Shaped

/-- **One check of a run.** -/
theorem Reading.check (h : Reading pkt vs f) (hread : pkt.cmd.isRead = true) (hsize : 0 < pkt.size)
    (hben : f.Benign v) : ∃ f' done, f.checkFunctional v = some (f', v, done) ∧ Reading pkt (vs ++ [v]) f' ∧
      (done = true ↔ ∀ i, i < pkt.size → f'.valid i = true) := by
  have hpkt := h.pkt_eq
  have hcmd : f.pkt.cmd = pkt.cmd := by rw [hpkt]
  have hsz : f.pkt.size = pkt.size := by rw [hpkt]
  obtain ⟨f', done, hf', hs⟩ :=
    checkFunctional_spec (hcmd ▸ hread) (hsz ▸ hsize) h.shaped hben
  have hdone := hs.done_iff
  rw [hsz] at hdone
  refine ⟨f', done, hf', ⟨h.toCollected.supplied hs ?_, hs.shaped⟩, hdone⟩
  intro i hi hcov
  have hcov' : v.covers f.pkt i = true := by
    rw [hpkt]
    exact hcov
  by_cases hc : f.Counts v
  · exact (hben.2 hc).2.2 i (hsz ▸ hi) hcov'
  · rw [covers_of_not_counts hc (hsz ▸ hi)] at hcov'
    cases hcov'

theorem reading_of_run (hread : pkt.cmd.isRead = true) (hsize : 0 < pkt.size)
    (h : Run (Guarded (stepOf step) Benign) ⟨pkt, []⟩ vs f) : Reading pkt vs f := by
  refine h.inv_hist (P := Reading pkt) ?_ ?_
  · rintro vs f v f' hf ⟨hstep, hben⟩
    obtain ⟨f₁, done, hf₁, hreading, -⟩ := hf.check hread hsize hben
    obtain ⟨r, hr, rfl⟩ := Option.map_eq_some_iff.mp hstep
    cases hf₁.symm.trans hr
    exact hreading
  · refine ⟨⟨?_, fun _ _ => rfl⟩, Or.inl rfl⟩
    have hnone : collected pkt [] = pkt.data := by
      funext i
      unfold collected
      split <;> rfl
    rw [hnone]

end FunctionalPacket

/-- **A functional read collects its bytes.**  In every sequence of checks that meet `Benign` each
    byte is that of the first value that covers it, and it is marked valid; the others are as they
    were, and are not.  One more such check goes through, leaves the value as it was, and returns
    true if and only if every byte is covered by then. -/
theorem checkFunctional_collects {pkt : Packet} (hread : pkt.cmd.isRead = true)
    (hsize : 0 < pkt.size) {vs : List MemValue} {f : FunctionalPacket}
    (h : Run (Guarded (stepOf FunctionalPacket.step) FunctionalPacket.Benign) ⟨pkt, []⟩ vs f) : f.Collected pkt vs ∧
      ∀ v, f.Benign v → ∃ f' done, f.checkFunctional v = some (f', v, done) ∧ f'.Collected pkt (vs ++ [v]) ∧
        (done = true ↔ ∀ i, i < pkt.size → ∃ w ∈ vs ++ [v], w.covers pkt i = true) := by
  have hreading := FunctionalPacket.reading_of_run hread hsize h
  refine ⟨hreading.toCollected, fun v hben => ?_⟩
  obtain ⟨f', done, hf', hreading', hdone⟩ := hreading.check hread hsize hben
  refine ⟨f', done, hf', hreading'.toCollected, hdone.trans ?_⟩
  constructor
  · intro hall i hi
    exact any_eq_true.mp ((hreading'.valid_eq i hi).symm.trans (hall i hi))
  · intro hall i hi
    exact (hreading'.valid_eq i hi).trans (any_eq_true.mpr (hall i hi))

/-- A read of four bytes at 256, which are zero so far. -/
def demoRead : Packet :=
  .ofRequest ⟨256, 4, 0, 0, false, false, false, false, false⟩ .readReq fun _ => 0

/-- A value whose byte at the address `a` is `a + k`. -/
def demoValue (addr size k : Nat) : MemValue :=
  ⟨addr, false, size, some fun i => BitVec.ofNat 8 (addr + i + k)⟩

/-- The upper half and then the lower half of the read. -/
theorem checkFunctional_two_halves : ∃ f, exec (guardFn FunctionalPacket.step FunctionalPacket.Benign) ⟨demoRead, []⟩
        [demoValue 258 2 0] = some f ∧ f.Benign (demoValue 256 2 0) ∧
      ∃ f', f.checkFunctional (demoValue 256 2 0) = some (f', demoValue 256 2 0, true) ∧
        f'.Collected demoRead [demoValue 258 2 0, demoValue 256 2 0] := by
  refine exec_observe (fun f => decide (f.Benign (demoValue 256 2 0))) true (by decide +kernel) fun f hf hobs => ?_
  have hben := of_decide_eq_true hobs
  obtain ⟨f', done, hf', hcollected, hdone⟩ :=
    (checkFunctional_collects (by decide) (by decide) (exec_guardFn_iff.mp hf)).2 _ hben
  have hall : ∀ i, i < demoRead.size →
      ∃ w ∈ [demoValue 258 2 0] ++ [demoValue 256 2 0], w.covers demoRead i = true := by
    decide +kernel
  rw [hdone.mpr hall] at hf'
  exact ⟨hben, f', hf', hcollected⟩

/-- **Where it goes wrong.**  A value that has the bytes 256 and 257 and starts before the read
    supplies only the first of them, and one that has 259 and ends behind the read supplies
    nothing; and the second of two values overwrites the bytes of the first. -/
theorem checkFunctional_short_and_overwritten :
    ((FunctionalPacket.checkFunctional ⟨demoRead, []⟩ (demoValue 254 4 0)).map fun r =>
        (r.1.pkt.data 0, r.1.pkt.data 1, r.1.bytesValid)) =
        some (0#8, 0#8, [true, false, false, false]) ∧
      (demoValue 254 4 0).covers demoRead 1 = true ∧ (demoValue 254 4 0).byteFor demoRead 1 = 1#8 ∧
      ((FunctionalPacket.checkFunctional ⟨demoRead, []⟩ (demoValue 259 2 0)).map fun r =>
        (r.1.pkt.data 3, r.1.bytesValid)) = some (0#8, [false, false, false, false]) ∧
      (demoValue 259 2 0).covers demoRead 3 = true ∧
      ((exec FunctionalPacket.step ⟨demoRead, []⟩ [demoValue 257 1 0, demoValue 257 1 5]).map
        fun f => f.pkt.data 1) = some 6#8 ∧
      collected demoRead [demoValue 257 1 0, demoValue 257 1 5] 1 = 1#8 := by
  decide +kernel

end NvpSim.Mem
