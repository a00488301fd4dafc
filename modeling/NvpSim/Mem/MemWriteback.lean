/-
  Writing back a hierarchy of caches (`Cache::memWriteback` with `writebackVisitor`).

  Before a switch to another memory mode the caches are written back, from the top level down.  Each one sends
  its dirty blocks towards the memory as functional writes, which change the data of every block with the SAME
  address and the SAME security that they meet.  The visitor, unlike `writebackBlk`, does not mark the request
  of a secure block as secure: the copies of a secure line further down are not updated, and one that is dirty
  is written over the newer value in its turn.

  A line has one security attribute.  Write buffers and MSHRs are empty when the system is drained.
-/
import NvpSim.Lib.Run
import Mathlib.Data.List.Nodup

namespace NvpSim.Mem

open List Function

variable {D : Type}

/-- A valid block: its address, `BlkSecure`, `BlkDirty` and its data. -/
structure LevelBlk (D : Type) where
  addr : Nat
  secure : Bool
  dirty : Bool
  data : D

/-- The caches, in the order in which they are written back, and the memory below. -/
structure Levels (D : Type) where
  caches : Nat → List (LevelBlk D)
  mem : Nat → D

/-- `functionalAccess(pkt)` of a cache, for a write. -/
def functionalWrite (addr : Nat) (secure : Bool) (data : D) (c : List (LevelBlk D)) : List (LevelBlk D) :=
  c.map fun b => if b.addr = addr ∧ b.secure = secure then { b with data } else b

namespace Levels

variable {reach : Nat → Nat → Bool} {s s' : Levels D} {i j k n a : Nat} {attr : Nat → Bool}

/-- A functional write of cache `i`, to the caches that it reaches and to memory. -/
def sendFunctional (reach : Nat → Nat → Bool) (i : Nat) (s : Levels D) (addr : Nat) (secure : Bool)
    (data : D) : Levels D where
  caches := fun j => if reach i j then functionalWrite addr secure data (s.caches j) else s.caches j
  mem := update s.mem addr data

/-- `writebackVisitor(blk)`; the request has no flags. -/
def writebackVisitor (reach : Nat → Nat → Bool) (i : Nat) (s : Levels D) (b : LevelBlk D) : Levels D :=
  if b.dirty then s.sendFunctional reach i b.addr false b.data else s

/-- `memWriteback()` of cache `i`. -/
def memWriteback (reach : Nat → Nat → Bool) (s : Levels D) (i : Nat) : Levels D :=
  let s := (s.caches i).foldl (writebackVisitor reach i) s
  let cleaned := (s.caches i).map fun b => { b with dirty := false }
  { s with caches := update s.caches i cleaned }

/-- All of the first `n` caches. -/
def memWritebackAll (reach : Nat → Nat → Bool) (s : Levels D) : Nat → Levels D
  | 0 => s
  | n + 1 => (s.memWritebackAll reach n).memWriteback reach n

/-! ## What the hierarchy holds -/

/-- The data of a line that is dirty in a cache. -/
def dirtyAt (c : List (LevelBlk D)) (a : Nat) : Option D :=
  (c.find? fun b => b.addr = a && b.dirty).map LevelBlk.data

/-- The topmost dirty copy in the first `n` caches. -/
def topDirty (s : Levels D) (a : Nat) : Nat → Option D
  | 0 => none
  | n + 1 => (s.topDirty a n).or (dirtyAt (s.caches n) a)

/-- The lowest dirty copy. -/
def lowDirty (s : Levels D) (a : Nat) : Nat → Option D
  | 0 => none
  | n + 1 => (dirtyAt (s.caches n) a).or (s.lowDirty a n)

/-- **A hierarchy of `n` caches**, from the top level down: a functional write reaches every cache that
    is written back later and not its sender.  A cache has a line once, and a line one attribute. -/
structure Hierarchy (reach : Nat → Nat → Bool) (attr : Nat → Bool) (n : Nat) (s : Levels D) : Prop where
  down : ∀ i j, i < j → j < n → reach i j = true
  self : ∀ i, reach i i = false
  once : ∀ i < n, ((s.caches i).map LevelBlk.addr).Nodup
  attr : ∀ i < n, ∀ b ∈ s.caches i, b.secure = attr b.addr

/-! ## One cache -/

/-- What the functional writes of the lines in `f` leave of a block. -/
def written (f : Nat → Option D) (b : LevelBlk D) : LevelBlk D :=
  if b.secure then b else { b with data := (f b.addr).getD b.data }

theorem dirtyAt_cons (b : LevelBlk D) (c : List (LevelBlk D)) (a : Nat) :
    dirtyAt (b :: c) a = if b.addr = a ∧ b.dirty = true then some b.data else dirtyAt c a := by
  unfold dirtyAt
  rw [find?_cons]
  by_cases h : b.addr = a ∧ b.dirty = true
  · simp [h]
  · rw [if_neg h]
    cases hb : (decide (b.addr = a) && b.dirty) with
    | true => simp_all
    | false => rfl

/-- **The visit of a cache** writes its dirty lines to memory and to the caches that it reaches. -/
theorem foldl_visitor (reach : Nat → Nat → Bool) (i : Nat) {c : List (LevelBlk D)}
    (hc : (c.map LevelBlk.addr).Nodup) (s : Levels D) :
    (∀ a, (c.foldl (writebackVisitor reach i) s).mem a = (dirtyAt c a).getD (s.mem a)) ∧
    ∀ j, (c.foldl (writebackVisitor reach i) s).caches j =
      if reach i j then (s.caches j).map (written (dirtyAt c)) else s.caches j := by
  induction c generalizing s with
  | nil =>
    refine ⟨fun _ => rfl, fun j => ?_⟩
    have hid : written (dirtyAt ([] : List (LevelBlk D))) = id := by
      funext b
      unfold written
      split_ifs <;> rfl
    rw [hid, map_id]
    split_ifs <;> rfl
  | cons b c ih =>
    rw [map_cons, nodup_cons] at hc
    have hnot : dirtyAt c b.addr = none := by
      unfold dirtyAt
      rw [Option.map_eq_none_iff, find?_eq_none]
      intro x hx hxb
      have : x.addr = b.addr := by simp_all
      exact hc.1 (this ▸ mem_map_of_mem hx)
    rw [foldl_cons]
    obtain ⟨hmem, hcaches⟩ := ih hc.2 (writebackVisitor reach i s b)
    refine ⟨fun a => ?_, fun j => ?_⟩
    · rw [hmem, dirtyAt_cons, writebackVisitor]
      by_cases hb : b.dirty = true
      · by_cases ha : b.addr = a
        · subst ha
          simp [hb, hnot, sendFunctional]
        · simp [hb, ha, sendFunctional, update_of_ne (Ne.symm ha)]
      · simp [hb]
    · rw [hcaches, writebackVisitor]
      by_cases hb : b.dirty = true
      · rw [if_pos hb, sendFunctional]
        dsimp only
        split_ifs
        · rw [functionalWrite, map_map]
          refine map_congr_left fun x _ => ?_
          simp only [comp_apply, written, dirtyAt_cons, hb, and_true]
          by_cases hx : x.secure = true
          · simp [hx]
          · by_cases ha : x.addr = b.addr
            · simp [hx, ha, hnot]
            · simp [hx, ha, Ne.symm ha]
        · rfl
      · simp only [hb, if_false, Bool.false_eq_true]
        have hsame : dirtyAt (b :: c) = dirtyAt c := funext fun a => by simp [dirtyAt_cons, hb]
        rw [hsame]

theorem dirtyAt_written {c : List (LevelBlk D)} {f : Nat → Option D}
    (hattr : ∀ b ∈ c, b.secure = attr b.addr) (a : Nat) : dirtyAt (c.map (written f)) a =
      (dirtyAt c a).map fun d => if attr a then d else (f a).getD d := by
  induction c with
  | nil => rfl
  | cons b c ih =>
    have hb := hattr b (mem_cons_self ..)
    rw [map_cons, dirtyAt_cons, dirtyAt_cons, ih (forall_mem_cons.mp hattr).2]
    unfold written
    rw [hb]
    by_cases h : b.addr = a ∧ b.dirty = true
    · obtain ⟨rfl, hdirty⟩ := h
      cases attr b.addr <;> simp [hdirty]
    · cases attr b.addr <;> simp [h]

/-! ## All caches -/

/-- When the first `k` caches have been written back: these are clean, the blocks further down that are
    not secure have the topmost dirty data, and memory has the lowest of a secure line. -/
structure Stage (attr : Nat → Bool) (n : Nat) (s : Levels D) (k : Nat) (s' : Levels D) : Prop where
  clean : ∀ i < k, ∀ b ∈ s'.caches i, b.dirty = false
  below : ∀ j, k ≤ j → j < n → s'.caches j = (s.caches j).map (written fun a => s.topDirty a k)
  mem : ∀ a, s'.mem a = (if attr a then s.lowDirty a k else s.topDirty a k).getD (s.mem a)

/-- **One cache** takes the hierarchy to the next stage. -/
theorem Stage.memWriteback (hs : s.Hierarchy reach attr n) (hk : k < n) (h : s.Stage attr n k s') :
    s.Stage attr n (k + 1) (s'.memWriteback reach k) := by
  have hdirty := fun a => dirtyAt_written (f := fun a => s.topDirty a k) (hs.attr k hk) a
  have haddr : (s'.caches k).map LevelBlk.addr = (s.caches k).map LevelBlk.addr := by
    rw [h.below k (Nat.le_refl k) hk, map_map]
    refine map_congr_left fun b _ => ?_
    rw [comp_apply, written]
    split_ifs <;> rfl
  obtain ⟨hmem, hcaches⟩ := foldl_visitor reach k (haddr ▸ hs.once k hk) s'
  have hat : ∀ a, dirtyAt (s'.caches k) a = _ := fun a => h.below k (Nat.le_refl k) hk ▸ hdirty a
  have hupdate : ∀ j ≠ k, (s'.memWriteback reach k).caches j =
      if reach k j then (s'.caches j).map (written (dirtyAt (s'.caches k))) else s'.caches j :=
    fun j hj => (update_of_ne hj ..).trans (hcaches j)
  refine ⟨fun i hi b hb => ?_, fun j hj hjn => ?_, fun a => ?_⟩
  · by_cases hik : i = k
    · subst hik
      have hself : (s'.memWriteback reach i).caches i = map _ _ := update_self ..
      rw [hself] at hb
      obtain ⟨b', -, rfl⟩ := mem_map.mp hb
      rfl
    · rw [hupdate i hik] at hb
      have hclean := h.clean i (by omega)
      split_ifs at hb
      · obtain ⟨b', hb', rfl⟩ := mem_map.mp hb
        rw [written]
        split_ifs
        exacts [hclean b' hb', hclean b' hb']
      · exact hclean b hb
  · rw [hupdate j (by omega), if_pos (hs.down k j (by omega) hjn), h.below j (by omega) hjn, map_map]
    refine map_congr_left fun b hb => ?_
    have hb := hs.attr j hjn b hb
    have hat := hat b.addr
    rw [← hb] at hat
    simp only [comp_apply, written, topDirty]
    cases hsec : b.secure with
    | true => simp [hsec]
    | false =>
      simp only [hsec, if_false, Bool.false_eq_true] at hat ⊢
      rw [hat]
      cases s.topDirty b.addr k <;> cases dirtyAt (s.caches k) b.addr <;> rfl
  · rw [show (s'.memWriteback reach k).mem a = _ from hmem a, hat, h.mem a, topDirty, lowDirty]
    cases attr a <;> cases s.topDirty a k <;> cases dirtyAt (s.caches k) a <;> rfl

theorem stage_all (hs : s.Hierarchy reach attr n) (hk : k ≤ n) : s.Stage attr n k (s.memWritebackAll reach k) := by
  induction k with
  | zero =>
    have hid : (written fun a => s.topDirty a 0) = id := by
      funext b
      unfold written
      split_ifs <;> rfl
    refine ⟨fun i hi => absurd hi (Nat.not_lt_zero i), fun j _ _ => ?_, fun a => ?_⟩
    · rw [hid, map_id]
      rfl
    · split_ifs <;> rfl
  | succ k ih => exact (ih (by omega)).memWriteback hs (by omega)

/-- **The caches are written back.**  No block is dirty, and memory has for every line what the hierarchy
    held, if and only if for every secure line the lowest dirty copy has the data of the topmost one. -/
theorem memWriteback_iff (hs : s.Hierarchy reach attr n) :
    ((∀ i < n, ∀ b ∈ (s.memWritebackAll reach n).caches i, b.dirty = false) ∧
      ∀ a, (s.memWritebackAll reach n).mem a = (s.topDirty a n).getD (s.mem a)) ↔ ∀ a, attr a = true →
      (s.lowDirty a n).getD (s.mem a) = (s.topDirty a n).getD (s.mem a) := by
  have h := stage_all hs (Nat.le_refl n)
  constructor
  · rintro ⟨-, hmem⟩ a ha
    rw [← hmem a, h.mem a, if_pos ha]
  · refine fun hall => ⟨h.clean, fun a => ?_⟩
    rw [h.mem a]
    split_ifs with ha
    · exact hall a ha
    · rfl

/-- Two caches above a memory of zeros, with a dirty copy of line 0 in each. -/
def twoDirty (secure : Bool) (low : Nat) : Levels Nat where
  caches := fun i => if i = 0 then [⟨0, secure, true, 7⟩] else [⟨0, secure, true, low⟩]
  mem := fun _ => 0

theorem twoDirty_hierarchy (secure : Bool) (low : Nat) :
    (twoDirty secure low).Hierarchy (fun i j => i < j) (fun _ => secure) 2 where
  down i j hij _ := decide_eq_true hij
  self i := decide_eq_false (Nat.lt_irrefl i)
  once i _ := by
    unfold twoDirty
    dsimp only
    split_ifs <;> simp
  attr i _ b hb := by
    unfold twoDirty at hb
    dsimp only at hb
    split_ifs at hb
    all_goals rw [mem_singleton.mp hb]

/-- The line is secure, and both copies have the same data. -/
theorem memWriteback_secure_same : ((twoDirty true 7).memWritebackAll (fun i j => i < j) 2).mem 0 = 7 := by
  refine ((memWriteback_iff (twoDirty_hierarchy true 7)).mpr fun a _ => ?_).2 0
  show ((dirtyAt [_] a).or ((dirtyAt [_] a).or none)).getD 0 = ((none.or (dirtyAt [_] a)).or (dirtyAt [_] a)).getD 0
  cases dirtyAt [⟨0, true, true, 7⟩] a <;> rfl

/-- **The line is secure**: the lower cache writes its old data over the new. -/
theorem memWriteback_secure_stale : (twoDirty true 5).topDirty 0 2 = some 7 ∧
    ((twoDirty true 5).memWritebackAll (fun i j => i < j) 2).mem 0 = 5 :=
  ⟨rfl, rfl⟩

end Levels

end NvpSim.Mem
