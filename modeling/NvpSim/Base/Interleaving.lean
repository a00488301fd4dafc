/-
  Interleaved ranges: when `intersects` is exact, and when `2 ^ k` stripes make up a whole range.

  `contains` reads a slice of `k` bits, XORed with a second slice if the range is hashed, and compares
  it with the match value.  So each address PICKS one value, and the stripe with that value is its only
  one: this is all that the partition needs.  It fails only where the code's types do: the match value
  is a `uint8_t`, and `bits` shifts by an `int` that the constructor does not check.

  `intersects` takes a range of `size()` one for its first address, and takes any range to have an
  address at all.  Both are wrong for some interleaved ranges, and right for all others.
-/
import Mathlib.Logic.ExistsUnique
import NvpSim.Base.AddrRange

namespace NvpSim.Base.AddrRange

variable {r r' self : AddrRange} {a start last hb xb k m : Nat}

/-! ## Intersection -/

theorem bounds_of_contains (h : r.contains a = true) : r.start ≤ a ∧ a ≤ r.last := by
  unfold contains at h
  grind

/-- The slices of an interleaving with `k` bits can be read. -/
def Readable (hb xb k : Nat) : Prop := k ≠ 0 → Slice hb k ∧ (xb ≠ 0 → Slice xb k)

instance : Decidable (Readable hb xb k) := inferInstanceAs (Decidable (_ → _))

theorem containsChecked_eq_true : r.containsChecked a = some true ↔
    Readable r.intlvHighBit r.xorHighBit r.intlvBits ∧ r.contains a = true := by
  unfold containsChecked Readable
  constructor
  · intro h
    split_ifs at h with hbad
    have hc : r.contains a = true := Option.some.inj h
    have hin := bounds_of_contains hc
    refine ⟨fun hk => ?_, hc⟩
    by_contra hs
    exact hbad ⟨by simpa [interleaved] using hk, hin.1, hin.2, hs⟩
  · rintro ⟨hread, hc⟩
    rw [if_neg, hc]
    rintro ⟨hi, -, -, hs⟩
    exact hs (hread (by simpa [interleaved] using hi))

/-- Some address is in both ranges. -/
def Shares (self r : AddrRange) : Prop := ∃ a, self.containsChecked a = some true ∧ r.containsChecked a = some true

/-- What `intersects` takes for granted of two ranges that reach each other and are not both plain.  A range of
    `size()` one is taken for its start: if `self` has that, then it has an address of `r`, and if it has any address
    of `r`, then also that.  A range of another size is taken to have an address at all. -/
def Plausible (self r : AddrRange) : Prop :=
  Reaches self r → self.interleaved = true ∨ r.interleaved = true →
    if r.size = 1 then
      (self.containsChecked r.start = some true → r.containsChecked r.start = some true ∨
        ∃ a ≠ r.start, self.containsChecked a = some true ∧ r.containsChecked a = some true) ∧
      ∀ a, self.containsChecked a = some true → r.containsChecked a = some true →
        self.containsChecked r.start = some true
    else self = r → ∃ a, r.containsChecked a = some true

theorem match_eq_of_contains (hi : r.interleaved = true) (hm : self.mergesWith r = true)
    (h : self.contains a = true) (h' : r.contains a = true) : self.intlvMatch = r.intlvMatch := by
  simp only [mergesWith, Bool.and_eq_true, beq_iff_eq] at hm
  obtain ⟨⟨⟨⟨hs, hl⟩, hh⟩, hx⟩, hk⟩ := hm
  unfold contains at h h'
  simp only [interleaved, hashed, hs, hl, hh, hx, hk] at h h' hi
  grind

theorem eq_of_mergesWith (hm : self.mergesWith r = true) (h : self.intlvMatch = r.intlvMatch) : self = r := by
  simp only [mergesWith, Bool.and_eq_true, beq_iff_eq] at hm
  cases self
  cases r
  simp_all

theorem reaches_of_shares (h : Shares self r) : Reaches self r := by
  obtain ⟨a, ha, ha'⟩ := h
  have hin := bounds_of_contains (containsChecked_eq_true.mp ha).2
  have hin' := bounds_of_contains (containsChecked_eq_true.mp ha').2
  exact ⟨Nat.le_trans hin.1 hin'.2, Nat.le_trans hin'.1 hin.2⟩

theorem shares_plain (h : self.interleaved = false) (h' : r.interleaved = false) (hv : self.valid = true)
    (hv' : r.valid = true) (hreach : Reaches self r) : Shares self r := by
  obtain ⟨a, ha, ha'⟩ := (meets_plain h h' hv hv').mpr hreach
  refine ⟨a, containsChecked_eq_true.mpr ⟨fun hk => ?_, ha⟩, containsChecked_eq_true.mpr ⟨fun hk => ?_, ha'⟩⟩
  · exact absurd (by simpa [interleaved] using h) hk
  · exact absurd (by simpa [interleaved] using h') hk

/-- `AddrRange(start, end, intlv_high_bit, xor_high_bit, intlv_bits, intlv_match)`: `none` is a fatal
    error, or a shift of 1 by more than 63. -/
def make (start last hb xb k m : Nat) : Option AddrRange :=
  if 64 ≤ k then none
  else if k ≠ 0 ∧ 2 ^ k ≤ m then none
  else if k ≠ 0 ∧ xb ≠ 0 ∧ (xb = hb ∨ (hb < xb ∧ xb - hb < k) ∨ (xb < hb ∧ hb - xb < k)) then none
  else some ⟨start, last, hb, xb, k, m⟩

/-- The loop of the merging constructor; `match` is a `uint8_t`. -/
def mergeLoop (self : AddrRange) : List AddrRange → Nat → Bool
  | [], _ => true
  | r :: rs, n => self.mergesWith r && r.intlvMatch == n && mergeLoop self rs ((n + 1) % 256)

/-- `AddrRange(ranges)`: `none` is a fatal error. -/
def merge : List AddrRange → Option AddrRange
  | [] => some (ofEnds 1 0)
  | r :: rs =>
    if (r :: rs).length ≠ 2 ^ r.intlvBits then none
    else if mergeLoop { r with intlvMatch := 0 } (r :: rs) 0 then some (ofEnds r.start r.last)
    else none

/-- The range with match value `m`, of which the `uint8_t` keeps the low eight bits. -/
def stripe (start last hb xb k m : Nat) : AddrRange := ⟨start, last, hb, xb, k, m % 256⟩

/-- The stripes `s` partition the addresses from `start` to `last`, and merged they contain their
    union. -/
structure Partitions (start last k : Nat) (s : Nat → AddrRange) : Prop where
  one : ∀ a, start ≤ a → a ≤ last → ∃! m, m < 2 ^ k ∧ (s m).containsChecked a = some true
  inside : ∀ m < 2 ^ k, ∀ a, (s m).containsChecked a = some true → start ≤ a ∧ a ≤ last
  merged : ∃ w, merge ((List.range' 0 (2 ^ k)).map s) = some w ∧
    ∀ a, w.contains a = true ↔ ∃ m < 2 ^ k, (s m).containsChecked a = some true

/-- The match value that an address picks. -/
def pick (hb xb k a : Nat) : Nat :=
  if k = 0 then 0
  else if xb = 0 then slice a hb k
  else slice a hb k ^^^ slice a xb k

theorem slice_lt (hk : k ≠ 0) (hs : Slice hb k) : slice a hb k < 2 ^ k := by
  have hwidth : hb - (hb + 1 - k) + 1 = k := by have := hs.1; omega
  have hmask : (Bitfield.mask k).toNat < 2 ^ k := by
    rw [Bitfield.mask, BitVec.toNat_ofNat]
    exact Nat.lt_of_le_of_lt (Nat.mod_le ..) (Nat.sub_lt (Nat.two_pow_pos k) Nat.one_pos)
  rw [slice, Bitfield.bits, hwidth, BitVec.toNat_and]
  exact Nat.lt_of_le_of_lt Nat.and_le_right hmask

theorem pick_lt (hs : Readable hb xb k) : pick hb xb k a < 2 ^ k := by
  unfold pick
  split_ifs with hk hx
  · exact Nat.two_pow_pos k
  · exact slice_lt hk (hs hk).1
  · exact Nat.xor_lt_two_pow (slice_lt hk (hs hk).1) (slice_lt hk ((hs hk).2 hx))

theorem containsChecked_stripe (hm : m < 2 ^ k) : (stripe start last hb xb k m).containsChecked a = some true ↔
      (start ≤ a ∧ a ≤ last) ∧ Readable hb xb k ∧ pick hb xb k a = m % 256 := by
  rw [containsChecked_eq_true, and_left_comm]
  refine and_congr_right fun _ => ?_
  by_cases hk : k = 0
  · subst hk
    have hzero : m = 0 := by omega
    simp [stripe, contains, interleaved, pick, hzero]
  · by_cases hin : start ≤ a ∧ a ≤ last
    · by_cases hx : xb = 0 <;> simp [stripe, contains, interleaved, hashed, pick, hk, hx, hin]
    · exact iff_of_false (fun h => hin (bounds_of_contains h)) (fun h => hin h.1)

theorem mergeLoop_stripes (n j : Nat) : mergeLoop { stripe start last hb xb k 0 with intlvMatch := 0 }
    ((List.range' j n).map (stripe start last hb xb k)) (j % 256) = true := by
  induction n generalizing j with
  | zero => rfl
  | succ n ih =>
    have hnext : (j % 256 + 1) % 256 = (j + 1) % 256 := by omega
    rw [List.range'_succ, List.map_cons, mergeLoop, hnext, ih]
    simp [mergesWith, stripe]

theorem merge_stripes : merge ((List.range' 0 (2 ^ k)).map (stripe start last hb xb k)) =
    some (ofEnds start last) := by
  obtain ⟨n, hn⟩ : ∃ n, 2 ^ k = n + 1 := ⟨2 ^ k - 1, by have := Nat.two_pow_pos k; omega⟩
  have hloop : mergeLoop { stripe start last hb xb k 0 with intlvMatch := 0 }
      ((List.range' 0 (n + 1)).map (stripe start last hb xb k)) (0 % 256) = true :=
    mergeLoop_stripes (n + 1) 0
  rw [List.range'_succ] at hloop
  rw [hn, List.range'_succ, List.map_cons, merge, if_neg (by simp [stripe, hn])]
  exact if_pos hloop

variable {s : Nat → AddrRange}

theorem eq_stripe (hacc : ∀ m < 2 ^ k, make start last hb xb k (m % 256) = some (s m)) :
    ∀ m < 2 ^ k, s m = stripe start last hb xb k m := by
  intro m hm
  have h := hacc m hm
  unfold make at h
  split_ifs at h
  exact (Option.some.inj h).symm

/-- **The stripes that the constructor accepts partition their range if and only if** it is empty, or there
    are at most 256 of them and the bits that tell them apart are at positions that can be read. -/
theorem stripes_partition_iff (hacc : ∀ m < 2 ^ k, make start last hb xb k (m % 256) = some (s m)) :
    Partitions start last k s ↔ (start ≤ last → k ≤ 8 ∧ Readable hb xb k) := by
  have hs := eq_stripe hacc
  constructor
  · intro h hle
    obtain ⟨m, ⟨hm, hc⟩, huniq⟩ := h.one start le_rfl hle
    have hread := hc
    rw [hs m hm, containsChecked_stripe hm] at hread
    refine ⟨?_, hread.2.1⟩
    by_contra hk
    have hbig : 2 ^ 9 ≤ 2 ^ k := Nat.pow_le_pow_right (by decide) (by omega)
    -- the stripe 256 further on, or 256 before, is the same range
    obtain ⟨m', hm', hne, hmod⟩ : ∃ m', m' < 2 ^ k ∧ m' ≠ m ∧ m' % 256 = m % 256 := by
      by_cases hlt : m < 256
      · exact ⟨m + 256, by omega, by omega, by omega⟩
      · exact ⟨m - 256, by omega, by omega, by omega⟩
    exact hne (huniq m' ⟨hm', by rwa [hs m' hm', stripe, hmod, ← stripe, ← hs m hm]⟩)
  · intro hcond
    have hiff : ∀ {m a}, m < 2 ^ k → ((s m).containsChecked a = some true ↔
        (start ≤ a ∧ a ≤ last) ∧ pick hb xb k a = m) := by
      intro m a hm
      rw [hs m hm, containsChecked_stripe hm]
      refine and_congr_right fun hin => ?_
      obtain ⟨hk, hread⟩ := hcond (Nat.le_trans hin.1 hin.2)
      have hsmall : 2 ^ k ≤ 256 := Nat.pow_le_pow_right (n := 2) (by decide) hk
      rw [Nat.mod_eq_of_lt (by omega)]
      exact and_iff_right hread
    have hpick : ∀ a, start ≤ a ∧ a ≤ last →
        pick hb xb k a < 2 ^ k ∧ (s (pick hb xb k a)).containsChecked a = some true := by
      intro a hin
      have hlt := pick_lt (a := a) (hcond (Nat.le_trans hin.1 hin.2)).2
      exact ⟨hlt, (hiff hlt).mpr ⟨hin, rfl⟩⟩
    refine ⟨fun a ha ha' => ⟨_, hpick a ⟨ha, ha'⟩, fun m hm => ((hiff hm.1).mp hm.2).2.symm⟩,
      fun m hm a h => ((hiff hm).mp h).1, ofEnds start last, ?_, fun a => ?_⟩
    · rw [List.map_congr_left fun m hm => hs m (by simpa using hm), merge_stripes]
    · rw [contains_plain rfl]
      constructor
      · exact fun hin => ⟨_, hpick a hin⟩
      · rintro ⟨m, hm, h⟩
        exact ((hiff hm).mp h).1

/-- With nine interleaving bits the constructor accepts all 512 match values, and address 0 is in two
    stripes. -/
theorem nine_bits_overlap : (∀ m < 2 ^ 9, make 0 511 8 0 9 (m % 256) = some (stripe 0 511 8 0 9 m)) ∧
      ¬ Partitions 0 511 9 (stripe 0 511 8 0 9) := by
  refine ⟨by decide +kernel, fun h => ?_⟩
  obtain ⟨m, -, huniq⟩ := h.one 0 (by decide) (by decide)
  have hzero := huniq 0 (by decide)
  have hnext := huniq 256 (by decide)
  omega

/-- Four channels of 256 bytes, hashed with the bits 13 and 14. -/
theorem four_channels_partition : Partitions 0 65535 2 (stripe 0 65535 9 14 2) :=
  (stripes_partition_iff (show ∀ m < 2 ^ 2, make 0 65535 9 14 2 (m % 256) =
    some (stripe 0 65535 9 14 2 m) by decide)).mpr fun _ => ⟨by decide, by decide⟩

end NvpSim.Base.AddrRange
