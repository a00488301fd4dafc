/-
  The tables of a `MultiLevelPageTable` form a radix tree in the physical memory.

  A virtual page is the path of its offsets from the top table down (`path`), an entry links to the page its
  number names (`links`), and what is stored for a page is what `follow` finds at the end of its path
  (`stored`).
-/
import NvpSim.Lib.Radix
import NvpSim.Mem.MultiLevelPageTable

namespace NvpSim.Mem

open NvpSim.Lib NvpSim.Base List

/-! ## Paths -/

/-- The offsets of a path from the top are within the sizes of their tables. -/
def Fits : List Nat → List Nat → Prop
  | _, [] => True
  | [], _ :: _ => False
  | size :: sizes, offset :: path => offset < 2 ^ size ∧ Fits sizes path

/-- One more step of a path, at the level that is next. -/
theorem fits_snoc {sizes path : List Nat} {offset : Nat} : Fits sizes (path ++ [offset]) ↔
      Fits sizes path ∧ path.length < sizes.length ∧ offset < 2 ^ sizes.getD path.length 0 := by
  induction path generalizing sizes with
  | nil =>
    cases sizes with
    | nil => simp [Fits]
    | cons size sizes => simp [Fits]
  | cons o path ih =>
    cases sizes with
    | nil => simp [Fits]
    | cons size sizes => simp [Fits, ih, and_assoc]

/-- What the proofs need to know of an ISA: the page number of an entry is a field of its own, of which
    numbers below `pnumLimit` fit, zeroed memory holds no entries, tables fill their pages, and the
    offsets tell the pages of `canonical` addresses apart. -/
structure ISAOps.Lawful (ops : ISAOps) (pnumLimit : Nat) (canonical : Nat → Prop) : Prop where
  getPnum_zero : ops.getPnum 0 = 0
  getPnum_setPnum : ∀ pte pnum, pnum < pnumLimit → ops.getPnum (ops.setPnum pte pnum) = pnum
  getPnum_setPTEFields : ∀ pte flags, ops.getPnum (ops.setPTEFields pte flags) = ops.getPnum pte
  layout_ne : ops.pageTableLayout ≠ []
  layout_page : ∀ size ∈ ops.pageTableLayout, ops.pageShift ≤ logPteBytes + size
  pageShift_pte : logPteBytes ≤ ops.pageShift
  pageShift_le : ops.pageShift ≤ 64
  pnumLimit_pos : 0 < pnumLimit
  offsets_length : ∀ vaddr, (ops.getOffsets vaddr).length = ops.pageTableLayout.length
  offsets_fit : ∀ vaddr, Fits ops.pageTableLayout.reverse (ops.getOffsets vaddr).reverse
  offsets_inj : ∀ v w, canonical v → canonical w → v % ops.pageBytes = 0 → w % ops.pageBytes = 0 →
    ops.getOffsets v = ops.getOffsets w → v = w

namespace ISAOps

variable (ops : ISAOps)

/-- The paths of the tree. -/
def Valid (path : List Nat) : Prop := Fits ops.pageTableLayout.reverse path

theorem valid_prefixClosed : PrefixClosed ops.Valid := fun _ _ h => (fits_snoc.mp h).1

variable {ops} in
theorem Valid.length_lt (h : ops.Valid (path ++ [offset])) : path.length < ops.pageTableLayout.length := by
  have hlt := (fits_snoc.mp h).2.1
  rwa [length_reverse] at hlt

variable {ops} in
theorem Valid.length_le (h : ops.Valid path) : path.length ≤ ops.pageTableLayout.length := by
  cases path using List.reverseRecOn with
  | nil => exact Nat.zero_le _
  | append_singleton path offset =>
    rw [length_append]
    exact h.length_lt

/-- The path of a virtual address, from the top table down. -/
def path (vaddr : Nat) : List Nat := (ops.getOffsets vaddr).reverse

/-- Where the entry at an address leads. -/
def links (mem : Buffer (BitVec 8)) (addr : Nat) : Option Nat :=
  if ops.getPnum (readWord mem addr) = 0 then none else some (ops.getPnum (readWord mem addr))

end ISAOps

section Tree

variable {ops : ISAOps} {pnumLimit : Nat} {canonical : Nat → Prop}

theorem pageBytes_pos : 0 < ops.pageBytes := Nat.two_pow_pos _

/-- Entries are aligned. -/
theorem slot_aligned (law : ops.Lawful pnumLimit canonical) (t o : Nat) : ops.slot t o % 8 = 0 := by
  have hpage : 8 ∣ ops.pageBytes := by
    have h : 2 ^ 3 ∣ 2 ^ ops.pageShift := Nat.pow_dvd_pow 2 law.pageShift_pte
    exact h
  have h : 8 ∣ ops.slot t o :=
    Nat.dvd_add (Nat.dvd_trans hpage (Nat.dvd_mul_left _ _)) (Nat.dvd_mul_left _ _)
  exact Nat.mod_eq_zero_of_dvd h

/-- **Frame**: a write to another entry does not change a link. -/
theorem links_write_ne (law : ops.Lawful pnumLimit canonical) {mem : Buffer (BitVec 8)}
    {t o t' o' : Nat} (entry : BitVec 64) (hne : ops.slot t' o' ≠ ops.slot t o) :
    ops.links (writeWord mem (ops.slot t o) entry) (ops.slot t' o') = ops.links mem (ops.slot t' o') := by
  unfold ISAOps.links
  rw [readWord_writeWord_ne (slot_aligned law t o) (slot_aligned law t' o') hne]

/-- The entry that is written links to its page. -/
theorem links_write_self (mem : Buffer (BitVec 8)) (a : Nat) (entry : BitVec 64) :
    ops.links (writeWord mem a entry) a =
      if ops.getPnum entry = 0 then none else some (ops.getPnum entry) := by
  unfold ISAOps.links
  rw [readWord_writeWord_self]

/-- **The tables of a memory form a tree below `pagePtr`.** -/
structure Tree (ops : ISAOps) (sys : SystemPages) (base : Nat) : Prop where
  separate : Separate ops.slot (ops.links sys.mem) base ops.Valid
  below : ∀ p o t, ops.Valid (p ++ [o]) → follow ops.slot (ops.links sys.mem) base p = some t →
    ops.slot t o + pteBytes ≤ sys.pagePtr * ops.pageBytes

/-- What is stored for a path: a table, or at its end the page number. -/
def stored (ops : ISAOps) (sys : SystemPages) (base : Nat) (p : List Nat) : Option Nat :=
  follow ops.slot (ops.links sys.mem) base p

variable {sys : SystemPages} {base t o size : Nat} {p : List Nat} {entry : BitVec 64}

theorem links_memset (tree : Tree ops sys base) {q : List Nat} {a u n : Nat}
    (hq : ops.Valid (q ++ [a])) (hu : stored ops sys base q = some u) :
    ops.links (memset sys.mem (sys.pagePtr * ops.pageBytes) 0 n) (ops.slot u a) =
      ops.links sys.mem (ops.slot u a) := by
  unfold ISAOps.links
  rw [readWord_memset_of_disjoint (Or.inl (tree.below q a u hq hu))]

/-- A table that has just been allocated has no links. -/
theorem links_zeroed (law : ops.Lawful pnumLimit canonical) (mem : Buffer (BitVec 8))
    {u a : Nat} (ha : a < 2 ^ size) :
    ops.links (memset mem (u * ops.pageBytes) 0 (pteBytes * 2 ^ size)) (ops.slot u a) = none := by
  have hle : u * ops.pageBytes ≤ ops.slot u a := Nat.le_add_right _ _
  have hlt : ops.slot u a + 8 ≤ u * ops.pageBytes + pteBytes * 2 ^ size := by
    unfold ISAOps.slot pteBytes
    omega
  unfold ISAOps.links
  rw [readWord_memset_zero hle hlt, law.getPnum_zero, if_pos rfl]

/-- **A tree with one table.** -/
theorem Tree.top (sys : SystemPages) (law : ops.Lawful pnumLimit canonical)
    (hsize : ∀ o, ops.Valid [o] → o < 2 ^ size) (mem : Buffer (BitVec 8))
    (hmem : sys.mem = memset mem (base * ops.pageBytes) 0 (pteBytes * 2 ^ size))
    (hptr : sys.pagePtr * ops.pageBytes = base * ops.pageBytes + pteBytes * 2 ^ size) :
    Tree ops sys base ∧ ∀ q, ops.Valid q → q ≠ [] → stored ops sys base q = none := by
  have hV := ops.valid_prefixClosed
  have hempty : ∀ o, ops.Valid ([] ++ [o]) → ops.links sys.mem (ops.slot base o) = none :=
    fun o ho => by rw [hmem]; exact links_zeroed law mem (hsize o ho)
  have hfollow : ∀ q, ops.Valid q → stored ops sys base q = if q = [] then some base else none :=
    fun q hq => follow_of_prefix_empty (p := []) rfl hempty hV hq
  have honly : ∀ q a u, ops.Valid (q ++ [a]) → stored ops sys base q = some u → q = [] ∧ u = base := by
    intro q a u hq hu
    rw [hfollow q (hV q a hq)] at hu
    split at hu
    · rename_i hnil
      exact ⟨hnil, (Option.some.inj hu).symm⟩
    · cases hu
  refine ⟨⟨fun p o q o' u u' hp hq hu hu' heq => ?_, fun q a u hq hu => ?_⟩, fun q hq hne => ?_⟩
  · obtain ⟨rfl, rfl⟩ := honly p o u hp hu
    obtain ⟨rfl, rfl⟩ := honly q o' u' hq hu'
    unfold ISAOps.slot pteBytes at heq
    exact ⟨rfl, by omega⟩
  · obtain ⟨rfl, rfl⟩ := honly q a u hq hu
    have hlt := hsize a hq
    rw [hptr]
    unfold ISAOps.slot pteBytes
    omega
  · exact (hfollow q hq).trans (if_neg hne)

section

variable (sys' : SystemPages) (law : ops.Lawful pnumLimit canonical) (tree : Tree ops sys base)

include sys' law tree

/-- **Hanging in a table on free pages**: only the path to it is new. -/
theorem Tree.hang
    (hp : ops.Valid (p ++ [o])) (ht : stored ops sys base p = some t)
    (hnone : ops.links sys.mem (ops.slot t o) = none) (hpage : sys.pagePtr ≠ 0)
    (hentry : ops.getPnum entry = sys.pagePtr) (hsize : ∀ o', ops.Valid (p ++ [o] ++ [o']) → o' < 2 ^ size)
    (hmem : sys'.mem = writeWord
      (memset sys.mem (sys.pagePtr * ops.pageBytes) 0 (pteBytes * 2 ^ size)) (ops.slot t o) entry)
    (hptr : sys'.pagePtr * ops.pageBytes = sys.pagePtr * ops.pageBytes + pteBytes * 2 ^ size) :
    Tree ops sys' base ∧ stored ops sys' base (p ++ [o]) = some sys.pagePtr ∧
      ∀ q, ops.Valid q → q ≠ p ++ [o] → stored ops sys' base q = stored ops sys base q := by
  have hV := ops.valid_prefixClosed
  -- first the zeroed pages: no entry of the tree changes
  obtain ⟨mem₁, hmem₁⟩ : ∃ mem₁,
      mem₁ = memset sys.mem (sys.pagePtr * ops.pageBytes) 0 (pteBytes * 2 ^ size) := ⟨_, rfl⟩
  have hsame : ∀ q, ops.Valid q → follow ops.slot (ops.links mem₁) base q = stored ops sys base q := fun q hq =>
    follow_congr hV (fun q a u hq hu => by rw [hmem₁]; exact links_memset tree hq hu) hq
  have hsep₁ : Separate ops.slot (ops.links mem₁) base ops.Valid :=
    tree.separate.congr fun q a hq => hsame q (hV q a hq)
  have ht₁ : follow ops.slot (ops.links mem₁) base p = some t := (hsame p (hV p o hp)).trans ht
  have hnone₁ : ops.links mem₁ (ops.slot t o) = none := by
    rw [hmem₁, links_memset tree hp ht]
    exact hnone
  -- then the entry that leads to them
  rw [← hmem₁] at hmem
  have hm : ∀ t' o', ops.slot t' o' ≠ ops.slot t o →
      ops.links sys'.mem (ops.slot t' o') = ops.links mem₁ (ops.slot t' o') := fun t' o' hne => by
    rw [hmem]
    exact links_write_ne law entry hne
  have hlink : ops.links sys'.mem (ops.slot t o) = some sys.pagePtr := by
    rw [hmem, links_write_self, hentry, if_neg hpage]
  have hnew : ∀ a, sys.pagePtr * ops.pageBytes ≤ ops.slot sys.pagePtr a := fun a =>
    Nat.le_add_right _ _
  have hold : ∀ q a u, ops.Valid (q ++ [a]) → stored ops sys base q = some u → ∀ a',
      ops.slot u a ≠ ops.slot sys.pagePtr a' := fun q a u hq hu a' heq => by
    have hbelow := tree.below q a u hq hu
    have hle := hnew a'
    rw [heq] at hbelow
    exact absurd (Nat.le_trans hbelow hle) (Nat.not_le_of_lt (Nat.lt_add_of_pos_right (by decide)))
  have hempty : ∀ o', ops.Valid (p ++ [o] ++ [o']) →
      ops.links sys'.mem (ops.slot sys.pagePtr o') = none := fun o' ho' => by
    rw [hm _ _ (hold p o t hp ht o').symm, hmem₁]
    exact links_zeroed law sys.mem (hsize o' ho')
  have hother : ∀ q, ops.Valid q → q ≠ p ++ [o] → stored ops sys' base q = stored ops sys base q := fun q hq hne =>
    (follow_link hV hsep₁ hp ht₁ hnone₁ hm hlink hempty hq hne).trans (hsame q hq)
  have hself : stored ops sys' base (p ++ [o]) = some sys.pagePtr :=
    (follow_store_self hV hsep₁ hp ht₁ hm).2.trans hlink
  refine ⟨⟨?_, fun q a u hq hu => ?_⟩, hself, hother⟩
  · refine Separate.link hV hsep₁ hself (fun q hq hne => (hother q hq hne).trans (hsame q hq).symm) ?_ ?_
    · intro q a u a' hq hu _
      exact hold q a u hq ((hsame q (hV q a hq)).symm.trans hu) a'
    · intro a a' _ _ heq
      unfold ISAOps.slot pteBytes at heq
      omega
  · rw [hptr]
    by_cases hq' : q = p ++ [o]
    · subst hq'
      cases hself.symm.trans hu
      have hlt := hsize a hq
      unfold ISAOps.slot pteBytes
      omega
    · have hu' := (hother q (hV q a hq) hq').symm.trans hu
      exact Nat.le_trans (tree.below q a u hq hu') (Nat.le_add_right _ _)

/-- **A store to an entry of the last table**: only the path of that entry changes. -/
theorem Tree.store
    (hp : ops.Valid (p ++ [o])) (hlen : p.length + 1 = ops.pageTableLayout.length)
    (ht : stored ops sys base p = some t)
    (hmem : sys'.mem = writeWord sys.mem (ops.slot t o) entry) (hptr : sys'.pagePtr = sys.pagePtr) :
    Tree ops sys' base ∧ stored ops sys' base (p ++ [o]) =
        (if ops.getPnum entry = 0 then none else some (ops.getPnum entry)) ∧
      ∀ q, ops.Valid q → q ≠ p ++ [o] → stored ops sys' base q = stored ops sys base q := by
  have hV := ops.valid_prefixClosed
  have hm : ∀ t' o', ops.slot t' o' ≠ ops.slot t o →
      ops.links sys'.mem (ops.slot t' o') = ops.links sys.mem (ops.slot t' o') := fun t' o' hne => by
    rw [hmem]
    exact links_write_ne law entry hne
  have hother : ∀ q, ops.Valid q → q ≠ p ++ [o] → stored ops sys' base q = stored ops sys base q := fun q hq hne => by
    refine follow_store hV tree.separate hp ht hm hq fun hpre => hne ?_
    -- no path is longer
    exact (hpre.eq_of_length_le (by rw [length_append]; exact hlen ▸ ISAOps.Valid.length_le hq)).symm
  -- the tables stay where they are
  have htables : ∀ q a, ops.Valid (q ++ [a]) → stored ops sys' base q = stored ops sys base q := fun q a hq =>
    hother q (hV q a hq) fun heq => by
      have hlt := ISAOps.Valid.length_lt hq
      rw [heq, length_append, length_singleton] at hlt
      omega
  refine ⟨⟨tree.separate.congr htables, fun q a u hq hu => ?_⟩, ?_, hother⟩
  · rw [hptr]
    exact tree.below q a u hq ((htables q a hq).symm.trans hu)
  · refine (follow_store_self hV tree.separate hp ht hm).2.trans ?_
    rw [hmem, links_write_self]

end

/-! ## Allocating a table -/

/-- The physical memory ends below the m5 operations and has page numbers that fit an entry. -/
structure Roomy (ops : ISAOps) (pnumLimit : Nat) (sys : SystemPages) : Prop where
  m5ops : sys.totalSize < 0xffffffff / ops.pageBytes * ops.pageBytes
  pnum : sys.totalSize ≤ pnumLimit * ops.pageBytes

theorem allocPhysPages_spec (hroom : Roomy ops pnumLimit sys) (n : Nat) :
    sys.allocPhysPages ops n = .error .outOfMemory ∨ (sys.allocPhysPages ops n =
        .ok (sys.pagePtr * ops.pageBytes, { sys with pagePtr := sys.pagePtr + n }) ∧
        (sys.pagePtr + n) * ops.pageBytes ≤ sys.totalSize) := by
  unfold SystemPages.allocPhysPages
  dsimp only
  cases (AddrRange.ofEnds 0xffff0000 0xffffffff).contains ((sys.pagePtr + n) * ops.pageBytes) with
  | true =>
    left
    rw [if_pos rfl, if_pos hroom.m5ops]
  | false =>
    by_cases hfull : sys.totalSize < (sys.pagePtr + n) * ops.pageBytes
    · exact Or.inl (if_pos hfull)
    · exact Or.inr ⟨if_neg hfull, Nat.le_of_not_lt hfull⟩

/-- A new table is got, or the memory is exhausted. -/
theorem allocTable_spec (sys : SystemPages) (hroom : Roomy ops pnumLimit sys)
    (hsize : ops.pageShift ≤ logPteBytes + size) : MultiLevelPageTable.allocTable ops sys size = .error .outOfMemory ∨
      ∃ ptr, MultiLevelPageTable.allocTable ops sys size = .ok (sys.pagePtr * ops.pageBytes,
          ⟨memset sys.mem (sys.pagePtr * ops.pageBytes) 0 (pteBytes * 2 ^ size), ptr, sys.totalSize⟩) ∧
        ptr * ops.pageBytes = sys.pagePtr * ops.pageBytes + pteBytes * 2 ^ size ∧
        ptr * ops.pageBytes ≤ sys.totalSize := by
  have hbytes : 2 ^ (logPteBytes + size - ops.pageShift) * ops.pageBytes = pteBytes * 2 ^ size := by
    rw [ISAOps.pageBytes, ← Nat.pow_add, Nat.sub_add_cancel hsize, Nat.pow_add]
    rfl
  unfold MultiLevelPageTable.allocTable
  dsimp only
  rw [if_neg (Nat.not_lt_of_le hsize)]
  rcases allocPhysPages_spec hroom (2 ^ (logPteBytes + size - ops.pageShift)) with h | ⟨h, hle⟩
  · rw [h]
    exact Or.inl rfl
  · rw [h]
    refine Or.inr ⟨_, ?_, ?_, hle⟩
    · rw [hbytes]
    · rw [Nat.add_mul, hbytes]

/-! ## Walking -/

variable {offsets : List Nat} {i : Nat}

theorem upper_succ (hi : i < offsets.length) :
    (offsets.drop i).reverse = (offsets.drop (i + 1)).reverse ++ [offsets.getD i 0] := by
  rw [drop_eq_getElem_cons hi, reverse_cons]
  congr 2
  rw [getD_eq_getElem?_getD, getElem?_eq_getElem hi]
  rfl

theorem upper_append (offsets : List Nat) {k : Nat} (hik : i ≤ k) : (offsets.drop i).reverse =
      (offsets.drop k).reverse ++ ((offsets.drop i).take (k - i)).reverse := by
  rw [← reverse_append]
  nth_rewrite 2 [← Nat.add_sub_cancel' hik]
  rw [← drop_drop, take_append_drop]

/-- **A walk that does not allocate** follows the links from the top. -/
theorem walkLevels_find (base : Nat) {levelBase : Nat} (hi : i < offsets.length)
    (hbase : stored ops sys base (offsets.drop (i + 1)).reverse = some levelBase) :
    MultiLevelPageTable.walkLevels ops offsets false i levelBase sys =
      .ok ((stored ops sys base (offsets.drop 1).reverse).map (ops.slot · (offsets.getD 0 0)), sys) := by
  induction i generalizing levelBase with
  | zero => rw [hbase]; rfl
  | succ i ih =>
    have hnext : stored ops sys base (offsets.drop (i + 1)).reverse =
        ops.links sys.mem (ops.slot levelBase (offsets.getD (i + 1) 0)) := by
      rw [upper_succ hi, stored, follow_snoc, ← stored, hbase]
      rfl
    unfold MultiLevelPageTable.walkLevels
    dsimp only
    unfold ISAOps.links at hnext
    split
    · rename_i hzero
      rw [if_pos hzero] at hnext
      -- the walk ends here, and so does the tree
      have hnone : stored ops sys base (offsets.drop 1).reverse = none := by
        rw [upper_append offsets (Nat.le_add_left 1 i)]
        exact follow_of_prefix_none hnext
      rw [hnone]
      rfl
    · rename_i hne
      rw [if_neg hne] at hnext
      exact ih (by omega) hnext

/-- What a walk that allocates leaves: a tree in which every page is mapped to what it was. -/
structure Grown (ops : ISAOps) (pnumLimit base : Nat) (sys sys' : SystemPages) : Prop where
  tree : Tree ops sys' base
  roomy : Roomy ops pnumLimit sys'
  pagePtr_ne : sys'.pagePtr ≠ 0
  same : ∀ q, ops.Valid q → q.length = ops.pageTableLayout.length → stored ops sys' base q = stored ops sys base q

/-- **A missing table** is allocated and hung into the tree. -/
theorem allocTable_hang (law : ops.Lawful pnumLimit canonical) (tree : Tree ops sys base)
    (hroom : Roomy ops pnumLimit sys) (hpage : sys.pagePtr ≠ 0) (hp : ops.Valid (p ++ [o]))
    (hi : (p ++ [o]).length + (i + 1) = ops.pageTableLayout.length)
    (ht : stored ops sys base p = some t) (hnone : ops.links sys.mem (ops.slot t o) = none) :
    MultiLevelPageTable.allocTable ops sys (ops.pageTableLayout.getD i 0) = .error .outOfMemory ∨
      ∃ sys₁, MultiLevelPageTable.allocTable ops sys (ops.pageTableLayout.getD i 0) =
          .ok (sys.pagePtr * ops.pageBytes, sys₁) ∧ sys.pagePtr < pnumLimit ∧
        ∀ entry, ops.getPnum entry = sys.pagePtr → Grown ops pnumLimit base sys
            { sys₁ with mem := writeWord sys₁.mem (ops.slot t o) entry } ∧
          stored ops { sys₁ with mem := writeWord sys₁.mem (ops.slot t o) entry } base (p ++ [o]) =
            some sys.pagePtr := by
  have hmem : ops.pageTableLayout.getD i 0 ∈ ops.pageTableLayout := by
    have hlt : i < ops.pageTableLayout.length := by omega
    rw [getD_eq_getElem?_getD, getElem?_eq_getElem hlt]
    exact getElem_mem hlt
  rcases allocTable_spec sys hroom (law.layout_page _ hmem) with h | ⟨ptr, h, hptr, hle⟩
  · exact Or.inl h
  have hpos : 0 < pteBytes * 2 ^ ops.pageTableLayout.getD i 0 :=
    Nat.mul_pos (by decide) (Nat.two_pow_pos _)
  have hlimit : sys.pagePtr < pnumLimit := by
    have hpnum := hroom.pnum
    exact Nat.lt_of_mul_lt_mul_right (a := ops.pageBytes) (by omega)
  refine Or.inr ⟨_, h, hlimit, fun entry hentry => ?_⟩
  have hsize : ∀ o', ops.Valid (p ++ [o] ++ [o']) → o' < 2 ^ ops.pageTableLayout.getD i 0 := by
    intro o' ho'
    have hlt := (fits_snoc.mp ho').2.2
    rwa [getD_eq_getElem?_getD, getElem?_reverse (by omega),
      show ops.pageTableLayout.length - 1 - (p ++ [o]).length = i by omega,
      ← getD_eq_getElem?_getD] at hlt
  obtain ⟨htree, hself, hother⟩ := Tree.hang ⟨writeWord (memset sys.mem (sys.pagePtr * ops.pageBytes) 0
      (pteBytes * 2 ^ ops.pageTableLayout.getD i 0)) (ops.slot t o) entry, ptr, sys.totalSize⟩
    law tree hp ht hnone hpage hentry hsize rfl hptr
  refine ⟨⟨htree, ⟨hroom.m5ops, hroom.pnum⟩, fun hzero => ?_, fun q hq hlen => hother q hq fun heq => ?_⟩, hself⟩
  · have hzero' : ptr = 0 := hzero
    rw [hzero'] at hptr
    omega
  · rw [heq] at hlen
    omega

/-- **A walk that allocates** finds the last table of the path, and leaves every page as it was. -/
theorem walkLevels_allocate (law : ops.Lawful pnumLimit canonical)
    (hlen : offsets.length = ops.pageTableLayout.length) (hvalid : ops.Valid offsets.reverse)
    {levelBase : Nat} (hi : i < offsets.length) (tree : Tree ops sys base)
    (hroom : Roomy ops pnumLimit sys) (hpage : sys.pagePtr ≠ 0)
    (hbase : stored ops sys base (offsets.drop (i + 1)).reverse = some levelBase) :
    MultiLevelPageTable.walkLevels ops offsets true i levelBase sys = .error .outOfMemory ∨
      ∃ t sys', MultiLevelPageTable.walkLevels ops offsets true i levelBase sys =
          .ok (some (ops.slot t (offsets.getD 0 0)), sys') ∧ Grown ops pnumLimit base sys sys' ∧
        stored ops sys' base (offsets.drop 1).reverse = some t := by
  induction i generalizing levelBase sys with
  | zero =>
    exact Or.inr ⟨levelBase, sys, rfl, ⟨tree, hroom, hpage, fun _ _ _ => rfl⟩, hbase⟩
  | succ i ih =>
    have hupper := upper_succ hi
    have hp : ops.Valid ((offsets.drop (i + 2)).reverse ++ [offsets.getD (i + 1) 0]) := by
      rw [← hupper]
      have hall := upper_append offsets (Nat.zero_le (i + 1))
      exact ops.valid_prefixClosed.of_append (hall ▸ hvalid)
    have hnext : stored ops sys base (offsets.drop (i + 1)).reverse =
        ops.links sys.mem (ops.slot levelBase (offsets.getD (i + 1) 0)) := by
      rw [hupper, stored, follow_snoc, ← stored, hbase]
      rfl
    unfold MultiLevelPageTable.walkLevels
    by_cases hzero : ops.getPnum (readWord sys.mem (ops.slot levelBase (offsets.getD (i + 1) 0))) = 0
    · rw [if_pos hzero, if_neg (by decide)]
      have hnone : ops.links sys.mem (ops.slot levelBase (offsets.getD (i + 1) 0)) = none := if_pos hzero
      have hlevel : ((offsets.drop (i + 2)).reverse ++ [offsets.getD (i + 1) 0]).length + (i + 1) =
          ops.pageTableLayout.length := by
        rw [← hupper, length_reverse, length_drop]
        omega
      rcases allocTable_hang law tree hroom hpage hp hlevel hbase hnone with h | ⟨sys₁, h, hlimit, hang⟩
      · exact Or.inl (by rw [h])
      · rw [h]
        dsimp only
        rw [Nat.mul_div_cancel _ pageBytes_pos]
        obtain ⟨grown, hself⟩ := hang (ops.setPTEFields (ops.setPnum (readWord sys.mem
          (ops.slot levelBase (offsets.getD (i + 1) 0))) sys.pagePtr) 0)
            ((law.getPnum_setPTEFields _ _).trans (law.getPnum_setPnum _ _ hlimit))
        rcases ih (by omega) grown.tree grown.roomy grown.pagePtr_ne (hupper ▸ hself) with
          h' | ⟨t, sys', h', grown', hfound⟩
        · exact Or.inl h'
        · exact Or.inr ⟨t, sys', h', ⟨grown'.tree, grown'.roomy, grown'.pagePtr_ne,
            fun q hq hlen => (grown'.same q hq hlen).trans (grown.same q hq hlen)⟩, hfound⟩
    · rw [if_neg hzero]
      refine ih (by omega) tree hroom hpage ?_
      rw [hnext]
      exact if_neg hzero

end Tree

end NvpSim.Mem
