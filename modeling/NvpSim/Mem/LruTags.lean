/-
  The tags of a cache with LRU replacement (`mem/cache/tags/{lru,base_set_assoc,cacheset}.{hh,cc}`).

  A set is an array of pointers to its blocks, and the only record of their use is the ORDER of that array: a
  block that is accessed or inserted is moved to the head, one that is invalidated to the tail, and the victim
  is the last one.  `LruRun` adds a history, the blocks in the order of their uses; in every run the array is a
  permutation of the ways, and the valid blocks come first, in the order of that history (`Ranked`).

  The status that the callers of `insertBlock` and `invalidate` set is part of the step.  Left out: the data,
  `whenReady` and the latency, `refCount`, `isTouched`, and what is only there for the statistics.
-/
import NvpSim.Lib.Run
import Mathlib.Data.List.Nodup

namespace NvpSim.Mem

open NvpSim.Lib List Option Function

/-! ## A set -/

/-- The loop of `moveToHead`: `next` is written into the array, and what was there is the next one to
    be written, until that is `blk`. -/
def swapUntil (blk next : Nat) : List Nat → Option (List Nat)
  | [] => none
  | tmp :: rest =>
    if tmp = blk then some (next :: rest) else (swapUntil blk tmp rest).map (next :: ·)

def moveToHead (blks : List Nat) (blk : Nat) : Option (List Nat) :=
  if blks.head? = some blk then some blks else swapUntil blk blk blks

/-- `CacheSet::moveToTail(blk)`: the same loop, from the tail. -/
def moveToTail (blks : List Nat) (blk : Nat) : Option (List Nat) :=
  if blks.getLast? = some blk then some blks
  else (swapUntil blk blk blks.reverse).map reverse

/-! ## The tags -/

def leastSigBit (n : Nat) : Nat := n - (n &&& (n - 1))

/-- `isPowerOf2(n)`. -/
def isPowerOf2 (n : Nat) : Bool := n ≠ 0 && leastSigBit n = n

/-- A block: its tag, `BlkValid`, `BlkSecure`, and its set. -/
structure TagBlk where
  tag : Nat
  valid : Bool
  secure : Bool
  set : Nat
  deriving DecidableEq, Repr

/-- `invalidate()`: the status is cleared. -/
def TagBlk.invalidate (b : TagBlk) : TagBlk := { b with valid := false, secure := false }

/-- The parameters of the tags. -/
structure LruParams where
  size : Nat
  blockSize : Nat
  assoc : Nat

/-- `LRU`. -/
structure LruTags where
  assoc : Nat
  setShift : Nat
  tagShift : Nat
  setMask : Nat
  blks : Nat → TagBlk
  sets : Nat → List Nat

namespace LruTags

def numSets (p : LruParams) : Nat := p.size / (p.blockSize * p.assoc)

/-- The blocks of a set of a new cache. -/
def ways (p : LruParams) (set : Nat) : List Nat :=
  (range p.assoc).map fun j => set * p.assoc + j

/-- `BaseSetAssoc(p)`; `none` if a parameter is wrong. -/
def new (p : LruParams) : Option LruTags :=
  if p.blockSize < 4 || !isPowerOf2 p.blockSize then none
  else if numSets p = 0 || !isPowerOf2 (numSets p) then none
  else if p.assoc = 0 then none
  else some {
    assoc := p.assoc
    setShift := p.blockSize.log2
    tagShift := p.blockSize.log2 + (numSets p).log2
    setMask := numSets p - 1
    blks := fun b => ⟨b % p.assoc, false, false, b / p.assoc⟩
    sets := fun set => if set < numSets p then ways p set else [] }

def extractTag (t : LruTags) (addr : Nat) : Nat := addr >>> t.tagShift

def extractSet (t : LruTags) (addr : Nat) : Nat := (addr >>> t.setShift) &&& t.setMask

/-- The block is valid. -/
def isValid (t : LruTags) (b : Nat) : Bool := (t.blks b).valid

def findBlk (t : LruTags) (set tag : Nat) (isSecure : Bool) : Option Nat :=
  (t.sets set).find? fun b =>
    (t.blks b).tag = tag && t.isValid b && (t.blks b).secure = isSecure

/-- Another array for a set. -/
def setSet (t : LruTags) (set : Nat) (l : List Nat) : LruTags :=
  { t with sets := update t.sets set l }

/-- Another value for a block. -/
def setBlk (t : LruTags) (b : Nat) (blk : TagBlk) : LruTags :=
  { t with blks := update t.blks b blk }

/-- `accessBlock(addr, is_secure, …)`: the tags, and the block that was found. -/
def accessBlock (t : LruTags) (addr : Nat) (isSecure : Bool) : Option (LruTags × Option Nat) :=
  match t.findBlk (t.extractSet addr) (t.extractTag addr) isSecure with
  | none => some (t, none)
  | some b =>
    (moveToHead (t.sets (t.blks b).set) b).map fun l => (t.setSet (t.blks b).set l, some b)

def findVictim (t : LruTags) (addr : Nat) : Option Nat :=
  (t.sets (t.extractSet addr))[t.assoc - 1]?

def insertBlock (t : LruTags) (addr b : Nat) : Option LruTags :=
  let blk := if t.isValid b then (t.blks b).invalidate else t.blks b
  let t := t.setBlk b { blk with tag := t.extractTag addr }
  (moveToHead (t.sets (t.extractSet addr)) b).map fun l => t.setSet (t.extractSet addr) l

def invalidate (t : LruTags) (b : Nat) : Option LruTags :=
  if t.isValid b then
    (moveToTail (t.sets (t.blks b).set) b).map fun l => t.setSet (t.blks b).set l
  else none

end LruTags

/-! ## The calls -/

/-- The calls. -/
inductive LruCall where
  | accessBlock (addr : Nat) (isSecure : Bool)
  | findVictim (addr : Nat)
  | insertBlock (addr : Nat) (isSecure : Bool) (b : Nat)
  | invalidate (b : Nat)

/-- The tags, and the blocks in the order of their uses, the last one first. -/
structure LruRun where
  tags : LruTags
  uses : List Nat

namespace LruRun

/-- One call, with what the caller does to the status of the block.  A block is used when it is found
    and when it is inserted. -/
def step (s : LruRun) : LruCall → Option LruRun
  | .accessBlock addr isSecure => (s.tags.accessBlock addr isSecure).map fun r =>
      ⟨r.1, r.2.toList ++ s.uses⟩
  | .findVictim addr => (s.tags.findVictim addr).map fun _ => s
  | .insertBlock addr isSecure b => (s.tags.insertBlock addr b).map fun t =>
      ⟨t.setBlk b { t.blks b with valid := true, secure := isSecure }, b :: s.uses⟩
  | .invalidate b => (s.tags.invalidate b).map fun t =>
      ⟨t.setBlk b (t.blks b).invalidate, s.uses⟩

/-- `a` has been used after `b`: its last use comes first. -/
def UsedAfter (s : LruRun) (a b : Nat) : Prop := s.uses.idxOf a < s.uses.idxOf b

end LruRun

/-! ## The loops -/

/-- **The loop moves `blk` out of its place**, and `next` to the front. -/
theorem swapUntil_eq (blk next : Nat) (l : List Nat) :
    swapUntil blk next l = if blk ∈ l then some (next :: l.erase blk) else none := by
  induction l generalizing next with
  | nil => rfl
  | cons tmp rest ih =>
    unfold swapUntil
    by_cases htmp : tmp = blk
    · rw [if_pos htmp, htmp, if_pos (mem_cons_self ..), erase_cons_head]
    · rw [if_neg htmp, ih tmp, erase_cons_tail (by simpa using htmp)]
      by_cases hmem : blk ∈ rest
      · rw [if_pos hmem, if_pos (mem_cons_of_mem tmp hmem)]
        rfl
      · have hnot : blk ∉ tmp :: rest := fun hin =>
          (mem_cons.mp hin).elim (fun heq => htmp heq.symm) hmem
        rw [if_neg hmem, if_neg hnot]
        rfl

/-- **`moveToHead` moves the block to the head** and leaves the order of the others. -/
theorem moveToHead_eq_some {l l' : List Nat} {b : Nat} : moveToHead l b = some l' ↔ b ∈ l ∧ l' = b :: l.erase b := by
  unfold moveToHead
  split
  · rename_i hhead
    obtain ⟨rest, rfl⟩ := head?_eq_some_iff.mp hhead
    rw [erase_cons_head]
    exact ⟨fun h => ⟨mem_cons_self .., (some.inj h).symm⟩, fun h => h.2 ▸ rfl⟩
  · rw [swapUntil_eq, ite_none_right_eq_some, some.injEq, eq_comm (a := l')]

/-- **`moveToTail` moves the block to the tail** and leaves the order of the others. -/
theorem moveToTail_eq_some {l l' : List Nat} (hl : l.Nodup) {b : Nat} :
    moveToTail l b = some l' ↔ b ∈ l ∧ l' = l.erase b ++ [b] := by
  have hrev : (l.reverse.erase b).reverse = l.erase b := by
    rw [(nodup_reverse.mpr hl).erase_eq_filter, hl.erase_eq_filter, filter_reverse, reverse_reverse]
  unfold moveToTail
  split
  · rename_i hlast
    obtain ⟨init, rfl⟩ := getLast?_eq_some_iff.mp hlast
    have hnot : b ∉ init := fun hin =>
      (nodup_append.mp hl).2.2 b hin b (mem_singleton_self b) rfl
    have hmem : b ∈ init ++ [b] := mem_append_right _ (mem_singleton_self b)
    rw [erase_append_right _ hnot, erase_cons_head, append_nil]
    exact ⟨fun h => ⟨hmem, (some.inj h).symm⟩, fun h => h.2 ▸ rfl⟩
  · rw [swapUntil_eq]
    by_cases hmem : b ∈ l
    · rw [if_pos (mem_reverse.mpr hmem), map_some, reverse_cons, hrev]
      exact ⟨fun h => ⟨hmem, (some.inj h).symm⟩, fun h => h.2 ▸ rfl⟩
    · rw [if_neg fun hin => hmem (mem_reverse.mp hin)]
      exact ⟨nofun, fun h => absurd h.1 hmem⟩

/-! ## The order of a set -/

namespace LruRun

variable {s s' : LruRun} {l : List Nat} {b : Nat} {p : LruParams}

/-- The valid blocks come first, in the order of their last use. -/
def Ranked (s : LruRun) (l : List Nat) : Prop :=
  l.Pairwise fun a b => s.tags.isValid b = true → s.tags.isValid a = true ∧ s.UsedAfter a b

theorem usedAfter_cons {x y : Nat} (hx : x ≠ b) (hy : y ≠ b) (h : s.UsedAfter x y)
    (huses : s'.uses = b :: s.uses) : s'.UsedAfter x y := by
  unfold UsedAfter
  rw [huses, idxOf_cons_ne _ hx.symm, idxOf_cons_ne _ hy.symm]
  exact Nat.succ_lt_succ h

theorem Ranked.other (h : s.Ranked l) (hb : b ∉ l) (hvalid : ∀ x ∈ l, s'.tags.isValid x = s.tags.isValid x)
    (huses : s'.uses = s.uses ∨ s'.uses = b :: s.uses) : s'.Ranked l := by
  refine List.Pairwise.imp_of_mem (fun {x y} hx hy hxy hy' => ?_) h
  rw [hvalid y hy] at hy'
  obtain ⟨hvx, hafter⟩ := hxy hy'
  rw [hvalid x hx]
  refine ⟨hvx, ?_⟩
  rcases huses with huses | huses
  · unfold UsedAfter
    rw [huses]
    exact hafter
  · have hxb : x ≠ b := fun heq => hb (heq ▸ hx)
    have hyb : y ≠ b := fun heq => hb (heq ▸ hy)
    exact usedAfter_cons hxb hyb hafter huses

/-- **A block that is used goes to the head.** -/
theorem Ranked.head (h : s.Ranked l) (hl : l.Nodup) (hb : s'.tags.isValid b = true)
    (hvalid : ∀ x ∈ l, x ≠ b → s'.tags.isValid x = s.tags.isValid x)
    (huses : s'.uses = b :: s.uses) : s'.Ranked (b :: l.erase b) := by
  have hne : ∀ x ∈ l.erase b, x ≠ b := fun x hx => ((hl.mem_erase_iff).mp hx).1
  refine pairwise_cons.mpr ⟨fun x hx _ => ⟨hb, ?_⟩, ?_⟩
  · unfold UsedAfter
    rw [huses, idxOf_cons_self, idxOf_cons_ne _ (hne x hx).symm]
    exact Nat.succ_pos _
  · have hrest : s.Ranked (l.erase b) := List.Pairwise.sublist erase_sublist h
    refine hrest.other (fun hin => hne b hin rfl) (fun x hx => ?_) (Or.inr huses)
    exact hvalid x (mem_of_mem_erase hx) (hne x hx)

/-- **A block that is invalidated goes to the tail.** -/
theorem Ranked.tail (h : s.Ranked l) (hl : l.Nodup) (hb : s'.tags.isValid b = false)
    (hvalid : ∀ x ∈ l, x ≠ b → s'.tags.isValid x = s.tags.isValid x)
    (huses : s'.uses = s.uses) : s'.Ranked (l.erase b ++ [b]) := by
  have hne : ∀ x ∈ l.erase b, x ≠ b := fun x hx => ((hl.mem_erase_iff).mp hx).1
  have hrest : s.Ranked (l.erase b) := List.Pairwise.sublist erase_sublist h
  refine pairwise_append.mpr ⟨?_, pairwise_singleton _ _, fun x _ y hy hy' => ?_⟩
  · refine hrest.other (fun hin => hne b hin rfl) (fun x hx => ?_) (Or.inl huses)
    exact hvalid x (mem_of_mem_erase hx) (hne x hx)
  · rw [mem_singleton.mp hy, hb] at hy'
    cases hy'

end LruRun

/-! ## The sets in every run -/

namespace LruTags

variable {p : LruParams} {t : LruTags} {b set : Nat}

theorem nodup_ways (p : LruParams) (set : Nat) : (ways p set).Nodup :=
  nodup_range.map fun _ _ heq => Nat.add_left_cancel heq

theorem set_of_mem_ways (h : b ∈ ways p set) : b / p.assoc = set := by
  obtain ⟨j, hj, rfl⟩ := mem_map.mp h
  have hlt := mem_range.mp hj
  rw [Nat.mul_comm, Nat.mul_add_div (by omega), Nat.div_eq_of_lt hlt, Nat.add_zero]

theorem isValid_setBlk_of_ne {blk : TagBlk} {x : Nat} (hx : x ≠ b) : (t.setBlk b blk).isValid x = t.isValid x := by
  show (update t.blks b blk x).valid = _
  rw [update_of_ne hx]
  rfl

theorem isValid_setBlk_self {blk : TagBlk} : (t.setBlk b blk).isValid b = blk.valid := by
  show (update t.blks b blk b).valid = _
  rw [update_self]

theorem setBlk_setSet_setBlk {l : List Nat} {blk blk' : TagBlk} :
    ((t.setBlk b blk).setSet set l).setBlk b blk' = (t.setSet set l).setBlk b blk' := by
  unfold setBlk setSet
  rw [update_idem]

theorem insertBlock_cases {t' : LruTags} {addr : Nat} (h : t.insertBlock addr b = some t') :
    b ∈ t.sets (t.extractSet addr) ∧ ∃ blk, blk.set = (t.blks b).set ∧
      t' = (t.setBlk b blk).setSet (t.extractSet addr) (b :: (t.sets (t.extractSet addr)).erase b) := by
  unfold insertBlock at h
  obtain ⟨l, hl, rfl⟩ := map_eq_some_iff.mp h
  obtain ⟨hin, rfl⟩ := moveToHead_eq_some.mp hl
  refine ⟨hin, _, ?_, rfl⟩
  show (if t.isValid b then (t.blks b).invalidate else t.blks b).set = _
  split <;> rfl

end LruTags

namespace LruRun

variable {s s' : LruRun} {b : Nat} {p : LruParams}

/-- The sets, at any time. -/
structure Kept (p : LruParams) (s : LruRun) : Prop where
  assoc : s.tags.assoc = p.assoc
  mask : s.tags.setMask = LruTags.numSets p - 1
  home : ∀ b, (s.tags.blks b).set = b / p.assoc
  perm : ∀ set < LruTags.numSets p, (s.tags.sets set).Perm (LruTags.ways p set)
  outside : ∀ set, LruTags.numSets p ≤ set → s.tags.sets set = []
  ranked : ∀ set < LruTags.numSets p, s.Ranked (s.tags.sets set)
  used : ∀ set, ∀ b ∈ s.tags.sets set, s.tags.isValid b = true → b ∈ s.uses

section

variable (h : s.Kept p)

include h

theorem Kept.nodup {set : Nat} (hset : set < LruTags.numSets p) : (s.tags.sets set).Nodup :=
  (h.perm set hset).nodup_iff.mpr (LruTags.nodup_ways p set)

theorem Kept.set_eq {set : Nat} (hb : b ∈ s.tags.sets set) :
    set < LruTags.numSets p ∧ b / p.assoc = set := by
  by_cases hset : set < LruTags.numSets p
  · exact ⟨hset, LruTags.set_of_mem_ways ((h.perm set hset).mem_iff.mp hb)⟩
  · rw [h.outside set (by omega)] at hb
    cases hb

theorem Kept.move {set : Nat} (hb : b ∈ s.tags.sets set) {l : List Nat}
    {blk : TagBlk} {uses : List Nat} (hs : s' = ⟨(s.tags.setSet set l).setBlk b blk, uses⟩)
    (hblk : blk.set = (s.tags.blks b).set) (hl : l.Perm (s.tags.sets set))
    (huses : uses = s.uses ∨ uses = b :: s.uses) (hranked : s'.Ranked l)
    (hused : blk.valid = true → b ∈ uses) : s'.Kept p := by
  obtain ⟨hset, hhome⟩ := h.set_eq hb
  subst hs
  constructor
  case assoc => exact h.assoc
  case mask => exact h.mask
  case home =>
    intro x
    show (update s.tags.blks b blk x).set = _
    by_cases hx : x = b
    · rw [hx, update_self, hblk]
      exact h.home b
    · rw [update_of_ne hx]
      exact h.home x
  case perm =>
    intro set' hset'
    show (update s.tags.sets set l set').Perm _
    by_cases heq : set' = set
    · rw [heq, update_self]
      exact hl.trans (h.perm set hset)
    · rw [update_of_ne heq]
      exact h.perm set' hset'
  case outside =>
    intro set' hset'
    show update s.tags.sets set l set' = []
    rw [update_of_ne (by omega)]
    exact h.outside set' hset'
  case ranked =>
    intro set' hset'
    show Ranked _ (update s.tags.sets set l set')
    by_cases heq : set' = set
    · rw [heq, update_self]
      exact hranked
    · rw [update_of_ne heq]
      have hnot : b ∉ s.tags.sets set' := fun hin => heq ((h.set_eq hin).2.symm.trans hhome)
      refine (h.ranked set' hset').other hnot (fun x hx => ?_) huses
      have hxb : x ≠ b := fun heq => hnot (heq ▸ hx)
      show (update s.tags.blks b blk x).valid = _
      rw [update_of_ne hxb]
      rfl
  case used =>
    intro set' x hx hvalid
    have hx' : x ∈ update s.tags.sets set l set' := hx
    have hvalid' : (update s.tags.blks b blk x).valid = true := hvalid
    show x ∈ uses
    by_cases hxb : x = b
    · rw [hxb, update_self] at hvalid'
      exact hxb ▸ hused hvalid'
    · rw [update_of_ne hxb] at hvalid'
      have hin : ∃ set'', x ∈ s.tags.sets set'' := by
        by_cases heq : set' = set
        · rw [heq, update_self] at hx'
          exact ⟨set, hl.mem_iff.mp hx'⟩
        · rw [update_of_ne heq] at hx'
          exact ⟨set', hx'⟩
      obtain ⟨set'', hin⟩ := hin
      have hold := h.used set'' x hin hvalid'
      rcases huses with rfl | rfl
      · exact hold
      · exact mem_cons_of_mem b hold

theorem Kept.accessBlock {addr : Nat} {isSecure : Bool}
    (hs : s.step (.accessBlock addr isSecure) = some s') : s'.Kept p := by
  obtain ⟨⟨t, found⟩, ht, rfl⟩ := map_eq_some_iff.mp hs
  unfold LruTags.accessBlock at ht
  split at ht
  · cases ht
    exact h
  · rename_i b hfind
    obtain ⟨l, hl, heq⟩ := map_eq_some_iff.mp ht
    cases heq
    have hin := mem_of_find?_eq_some hfind
    have hset := (h.set_eq hin).2
    have hsame : (s.tags.blks b).set = s.tags.extractSet addr := (h.home b).trans hset
    have hvalid : s.tags.isValid b = true := by
      have hb := find?_some hfind
      simp only [Bool.and_eq_true] at hb
      exact hb.1.2
    rw [hsame] at hl ⊢
    obtain ⟨-, rfl⟩ := moveToHead_eq_some.mp hl
    refine h.move hin ?_ (rfl : (s.tags.blks b).set = _) (perm_cons_erase hin).symm (Or.inr rfl) ?_
      (fun _ => mem_cons_self ..)
    · unfold LruTags.setBlk
      rw [show (s.tags.setSet (s.tags.extractSet addr) _).blks = s.tags.blks from rfl, update_eq_self]
      rfl
    · exact (h.ranked _ (h.set_eq hin).1).head (h.nodup (h.set_eq hin).1) hvalid (fun _ _ _ => rfl) rfl

theorem Kept.insertBlock {addr : Nat} {isSecure : Bool}
    (hs : s.step (.insertBlock addr isSecure b) = some s') : s'.Kept p := by
  obtain ⟨t, ht, rfl⟩ := map_eq_some_iff.mp hs
  obtain ⟨hin, blk, hblk, rfl⟩ := LruTags.insertBlock_cases ht
  obtain ⟨hset, -⟩ := h.set_eq hin
  rw [LruTags.setBlk_setSet_setBlk]
  refine h.move hin rfl ?_ (perm_cons_erase hin).symm (Or.inr rfl) ?_ (fun _ => mem_cons_self ..)
  · show (update s.tags.blks b blk b).set = _
    rw [update_self, hblk]
  · refine (h.ranked _ hset).head (h.nodup hset) ?_ (fun x _ hx => ?_) rfl
    · exact LruTags.isValid_setBlk_self
    · exact LruTags.isValid_setBlk_of_ne hx

theorem Kept.invalidate (hs : s.step (.invalidate b) = some s') : s'.Kept p := by
  obtain ⟨t, ht, rfl⟩ := map_eq_some_iff.mp hs
  obtain ⟨-, ht⟩ := ite_none_right_eq_some.mp ht
  obtain ⟨l, hl, rfl⟩ := map_eq_some_iff.mp ht
  by_cases hset : (s.tags.blks b).set < LruTags.numSets p
  · obtain ⟨hin, rfl⟩ := (moveToTail_eq_some (h.nodup hset)).mp hl
    have hperm : ((s.tags.sets (s.tags.blks b).set).erase b ++ [b]).Perm (s.tags.sets (s.tags.blks b).set) :=
      (perm_append_singleton b _).trans (perm_cons_erase hin).symm
    refine h.move hin rfl rfl hperm (Or.inl rfl) ?_ nofun
    refine (h.ranked _ hset).tail (h.nodup hset) ?_ (fun x _ hx => ?_) rfl
    · exact LruTags.isValid_setBlk_self
    · exact LruTags.isValid_setBlk_of_ne hx
  · rw [h.outside _ (by omega)] at hl
    cases hl

/-- **Every call keeps the sets.** -/
theorem Kept.step {c : LruCall} (hs : s.step c = some s') : s'.Kept p := by
  cases c with
  | accessBlock addr isSecure => exact h.accessBlock hs
  | findVictim addr =>
    obtain ⟨v, -, rfl⟩ := map_eq_some_iff.mp hs
    exact h
  | insertBlock addr isSecure b => exact h.insertBlock hs
  | invalidate b => exact h.invalidate hs

end

theorem kept_new {t : LruTags} (h : LruTags.new p = some t) : Kept p ⟨t, []⟩ := by
  obtain ⟨-, h⟩ := ite_none_left_eq_some.mp h
  obtain ⟨-, h⟩ := ite_none_left_eq_some.mp h
  obtain ⟨-, h⟩ := ite_none_left_eq_some.mp h
  cases h
  refine ⟨rfl, rfl, fun _ => rfl, fun set hset => ?_, fun set hset => ?_, fun set hset => ?_, nofun⟩
  · show List.Perm (if set < _ then _ else []) _
    rw [if_pos hset]
  · show (if set < _ then _ else []) = []
    rw [if_neg (by omega)]
  · refine pairwise_of_forall fun _ _ hno => ?_
    exact (nomatch hno)

/-! ## The victim -/

theorem pos_of_new {t : LruTags} (h : LruTags.new p = some t) : 0 < LruTags.numSets p ∧ 0 < p.assoc := by
  obtain ⟨-, h⟩ := ite_none_left_eq_some.mp h
  obtain ⟨hsets, h⟩ := ite_none_left_eq_some.mp h
  obtain ⟨hassoc, -⟩ := ite_none_left_eq_some.mp h
  simp only [Bool.or_eq_true, decide_eq_true_eq, not_or] at hsets
  exact ⟨Nat.pos_of_ne_zero hsets.1, Nat.pos_of_ne_zero hassoc⟩

theorem Kept.extractSet_lt (h : s.Kept p) (hpos : 0 < LruTags.numSets p) (addr : Nat) :
    s.tags.extractSet addr < LruTags.numSets p := by
  have hle : (addr >>> s.tags.setShift) &&& s.tags.setMask ≤ s.tags.setMask := Nat.and_le_right
  have hmask := h.mask
  unfold LruTags.extractSet
  omega

theorem Kept.victim (h : s.Kept p) (hpos : 0 < LruTags.numSets p) (hassoc : 0 < p.assoc) (addr : Nat) :
    ∃ init v, s.tags.sets (s.tags.extractSet addr) = init ++ [v] ∧ s.tags.findVictim addr = some v := by
  have hlen : (s.tags.sets (s.tags.extractSet addr)).length = p.assoc := by
    rw [(h.perm _ (h.extractSet_lt hpos addr)).length_eq]
    simp [LruTags.ways]
  have hne : s.tags.sets (s.tags.extractSet addr) ≠ [] := by
    intro hnil
    rw [hnil] at hlen
    exact absurd hlen (by simp; omega)
  refine ⟨_, _, (dropLast_append_getLast hne).symm, ?_⟩
  unfold LruTags.findVictim
  rw [h.assoc, ← hlen, ← getLast?_eq_getElem?, getLast?_eq_some_getLast hne]

/-- **LRU replacement.**  In every run, each set is a permutation of its ways; a block that stands
    before a valid one is valid, and has been used after it; and the victim for an address is
    invalid if a block of the set is, and otherwise all other blocks have been used after it. -/
theorem lru_order_kept {t : LruTags} {cs : List LruCall} (hnew : LruTags.new p = some t)
    (hrun : Run (stepOf step) ⟨t, []⟩ cs s) : (∀ set < LruTags.numSets p, (s.tags.sets set).Perm (t.sets set) ∧
      (s.tags.sets set).Pairwise (fun a b =>
        s.tags.isValid b = true → s.tags.isValid a = true ∧ s.UsedAfter a b) ∧
      ∀ b ∈ s.tags.sets set, s.tags.isValid b = true → b ∈ s.uses) ∧
    ∀ addr, ∃ v ∈ s.tags.sets (s.tags.extractSet addr), s.tags.findVictim addr = some v ∧
      ((∃ b ∈ s.tags.sets (s.tags.extractSet addr), s.tags.isValid b = false) → s.tags.isValid v = false) ∧
      ((∀ b ∈ s.tags.sets (s.tags.extractSet addr), s.tags.isValid b = true) →
        ∀ b ∈ s.tags.sets (s.tags.extractSet addr), b ≠ v → s.UsedAfter b v) := by
  have hstart := kept_new hnew
  obtain ⟨hpos, hassoc⟩ := pos_of_new hnew
  have hkept : s.Kept p := hrun.inv (fun _ _ _ h hs => h.step hs) hstart
  constructor
  · intro set hset
    exact ⟨(hkept.perm set hset).trans (hstart.perm set hset).symm, hkept.ranked set hset, hkept.used set⟩
  · intro addr
    obtain ⟨init, v, hlist, hvictim⟩ := hkept.victim hpos hassoc addr
    have hranked := hkept.ranked _ (hkept.extractSet_lt hpos addr)
    unfold Ranked at hranked
    rw [hlist, pairwise_append] at hranked
    -- the victim stands behind all others
    have hlast : ∀ b ∈ init, s.tags.isValid v = true → s.tags.isValid b = true ∧ s.UsedAfter b v :=
      fun b hb => hranked.2.2 b hb v (mem_singleton_self v)
    rw [hlist]
    refine ⟨v, mem_append_right _ (mem_singleton_self v), hvictim, ?_, ?_⟩
    · rintro ⟨b, hb, hinvalid⟩
      refine Bool.eq_false_iff.mpr fun hvalid => ?_
      rcases mem_append.mp hb with hb | hb
      · rw [(hlast b hb hvalid).1] at hinvalid
        cases hinvalid
      · rw [mem_singleton.mp hb, hvalid] at hinvalid
        cases hinvalid
    · intro hall b hb hne
      have hvalid := hall v (mem_append_right _ (mem_singleton_self v))
      rcases mem_append.mp hb with hb | hb
      · exact (hlast b hb hvalid).2
      · exact absurd (mem_singleton.mp hb) hne

/-- A cache of four sets of two ways.  Both ways of the first set are filled, and the one that was
    filled first is accessed. -/
def filled : List LruCall :=
  [.findVictim 0, .insertBlock 0 false 1, .findVictim 256, .insertBlock 256 false 0, .accessBlock 0 false]

theorem lru_order_kept_filled : ∃ t s, LruTags.new ⟨512, 64, 2⟩ = some t ∧ Run (stepOf step) ⟨t, []⟩ filled s ∧
      s.tags.sets 0 = [1, 0] ∧ s.tags.isValid 0 = true ∧ s.tags.findVictim 512 = some 0 ∧ s.UsedAfter 1 0 := by
  have hobs : ((LruTags.new ⟨512, 64, 2⟩).bind fun t => exec step ⟨t, []⟩ filled).map
      (fun s => (s.tags.sets 0, s.tags.isValid 0, s.tags.findVictim 512)) = some ([1, 0], true, some 0) := by
    decide +kernel
  obtain ⟨s, hs, hd⟩ := map_eq_some_iff.mp hobs
  obtain ⟨t, ht, hs⟩ := bind_eq_some_iff.mp hs
  have hrun := exec_iff.mp hs
  have hlist : s.tags.sets 0 = [1, 0] := congrArg Prod.fst hd
  have hvalid : s.tags.isValid 0 = true := congrArg (fun x => x.2.1) hd
  obtain ⟨-, hranked, -⟩ := (lru_order_kept ht hrun).1 0 (by decide)
  rw [hlist, pairwise_cons] at hranked
  exact ⟨t, s, ht, hrun, hlist, hvalid, congrArg (fun x => x.2.2) hd, (hranked.1 0 (mem_singleton_self 0) hvalid).2⟩

end LruRun

end NvpSim.Mem
