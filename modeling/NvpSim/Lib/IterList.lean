/-
  Linked lists whose elements are reached through ITERATORS.

  An iterator names a CELL of a list, not a position: it stays good while other cells are inserted and erased,
  and is stale once its own cell has been erased.  A cell is a number and a value; a new cell gets a number that
  has not been used before, so that a stale iterator never becomes good again.

  An intrusive list keeps the iterator of an element IN the element: `Indexed l iter` says that `iter` is right
  for all elements of `l`, and stale for all others.
-/
import Mathlib.Data.List.Nodup

namespace NvpSim.Lib

open List Function

/-- A list of numbered cells. -/
structure IterList (α : Type) where
  cells : List (Nat × α)
  next : Nat
  fresh : ∀ c ∈ cells, c.1 < next
  distinct : (cells.map Prod.fst).Nodup

namespace IterList

variable {α : Type} {l l' : IterList α} {i it it' : Nat} {a b : α}

/-- The list without elements. -/
def empty : IterList α := ⟨[], 0, nofun, nodup_nil⟩

/-- The elements in order. -/
def toList (l : IterList α) : List α := l.cells.map Prod.snd

/-- `it` is the iterator of a cell that holds `a`. -/
def Points (l : IterList α) (it : Nat) (a : α) : Prop := (it, a) ∈ l.cells

/-- What the iterator points to, `*it`. -/
def get? (l : IterList α) (it : Nat) : Option α := (l.cells.find? (·.1 = it)).map Prod.snd

theorem insert_distinct (l : IterList α) (i : Nat) (a : α) :
    ((l.cells.take i ++ (l.next, a) :: l.cells.drop i).map Prod.fst).Nodup := by
  have hperm : (l.cells.take i ++ (l.next, a) :: l.cells.drop i).Perm ((l.next, a) :: l.cells) := by
    refine perm_middle.trans ?_
    rw [take_append_drop]
  refine (hperm.map Prod.fst).nodup_iff.mpr (nodup_cons.mpr ⟨fun hmem => ?_, l.distinct⟩)
  obtain ⟨c, hc, hnext⟩ := mem_map.mp hmem
  have hlt := l.fresh c hc
  omega

/-- A new cell in front of position `i`; its iterator is `l.next`. -/
def insertAt (l : IterList α) (i : Nat) (a : α) : IterList α where
  cells := l.cells.take i ++ (l.next, a) :: l.cells.drop i
  next := l.next + 1
  fresh := by
    intro c hc
    rcases mem_append.mp hc with hc | hc
    · exact Nat.lt_succ_of_lt (l.fresh c (mem_of_mem_take hc))
    · rcases mem_cons.mp hc with rfl | hc
      · exact Nat.lt_succ_self _
      · exact Nat.lt_succ_of_lt (l.fresh c (mem_of_mem_drop hc))
  distinct := l.insert_distinct i a

/-- The list without the cell of the iterator. -/
def erase (l : IterList α) (it : Nat) : Option (IterList α) :=
  if it ∈ l.cells.map Prod.fst then
    some {
      cells := l.cells.eraseP (·.1 = it)
      next := l.next
      fresh := fun c hc => l.fresh c (mem_of_mem_eraseP hc)
      distinct := l.distinct.sublist (eraseP_sublist.map Prod.fst) }
  else none

/-! ## Cells -/

theorem toList_insertAt : (l.insertAt i a).toList = l.toList.take i ++ a :: l.toList.drop i := by
  unfold toList insertAt
  rw [map_append, map_cons, map_take, map_drop]

theorem perm_insertAt : (l.insertAt i a).toList.Perm (a :: l.toList) := by
  rw [toList_insertAt]
  refine perm_middle.trans ?_
  rw [take_append_drop]

theorem points_insertAt : (l.insertAt i a).Points it b ↔ (it = l.next ∧ b = a) ∨ l.Points it b := by
  have hperm : (l.insertAt i a).cells.Perm ((l.next, a) :: l.cells) := by
    refine perm_middle.trans ?_
    rw [take_append_drop]
  unfold Points
  rw [hperm.mem_iff, mem_cons, Prod.mk.injEq]

theorem Points.mem (h : l.Points it a) : a ∈ l.toList := mem_map_of_mem (f := Prod.snd) h

theorem Points.lt (h : l.Points it a) : it < l.next := l.fresh _ h

/-- **What `erase` does**: the cell of the iterator is taken out, the others stay. -/
theorem erase_cases (h : l.erase it = some l') : l'.next = l.next ∧ l'.toList.Sublist l.toList ∧
      ∃ a, l.Points it a ∧ l.toList.Perm (a :: l'.toList) ∧ ∀ it' b, l'.Points it' b ↔ l.Points it' b ∧ it' ≠ it := by
  obtain ⟨hmem, h⟩ := Option.ite_none_right_eq_some.mp h
  cases h
  obtain ⟨c, hc, hcit⟩ := mem_map.mp hmem
  obtain ⟨c', pre, post, -, hc', hcells, herase⟩ :=
    exists_of_eraseP hc (p := (·.1 = it)) (decide_eq_true hcit)
  have hit : c'.1 = it := of_decide_eq_true hc'
  have hnodup := l.distinct
  rw [hcells, map_append, map_cons, nodup_middle, hit, nodup_cons,
    ← map_append] at hnodup
  refine ⟨rfl, eraseP_sublist.map Prod.snd, c'.2, ?_, ?_, fun it' b => ?_⟩
  · show (it, c'.2) ∈ l.cells
    rw [hcells, ← hit]
    exact mem_append_right _ (mem_cons_self ..)
  · show (l.cells.map Prod.snd).Perm (c'.2 :: (l.cells.eraseP _).map Prod.snd)
    rw [herase, hcells]
    exact perm_middle.map Prod.snd
  · show (it', b) ∈ l.cells.eraseP _ ↔ (it', b) ∈ l.cells ∧ it' ≠ it
    rw [herase, hcells, mem_append, mem_append, mem_cons]
    constructor
    · intro hin
      refine ⟨hin.imp_right Or.inr, fun heq => hnodup.1 ?_⟩
      exact mem_map.mpr ⟨_, mem_append.mpr hin, heq⟩
    · rintro ⟨hin, hne⟩
      refine hin.imp_right fun hin => hin.resolve_left fun heq => hne ?_
      rw [← hit, ← heq]

/-! ## Iterators that are kept in the elements -/

/-- No element is in the list twice, `iter` has the iterator of each, and what it has for any
    other element is stale. -/
structure Indexed (l : IterList α) (iter : α → Option Nat) : Prop where
  nodup : l.toList.Nodup
  bound : ∀ a it, iter a = some it → it < l.next
  own : ∀ a it b, iter a = some it → l.Points it b → b = a
  has : ∀ a ∈ l.toList, ∃ it, iter a = some it ∧ l.Points it a

variable {iter : α → Option Nat}

theorem indexed_empty : (empty : IterList α).Indexed fun _ => none where
  nodup := nodup_nil
  bound := nofun
  own := nofun
  has := nofun

theorem mem_insertAt : b ∈ (l.insertAt i a).toList ↔ b = a ∨ b ∈ l.toList := by
  rw [perm_insertAt.mem_iff, mem_cons]

theorem length_insertAt : (l.insertAt i a).toList.length = l.toList.length + 1 := by
  rw [perm_insertAt.length_eq, length_cons]

/-- **A new element gets the iterator of its cell.** -/
theorem Indexed.insertAt [DecidableEq α] (h : l.Indexed iter) (ha : a ∉ l.toList) (i : Nat) :
    (l.insertAt i a).Indexed (update iter a (some l.next)) where
  nodup := perm_insertAt.nodup_iff.mpr (nodup_cons.mpr ⟨ha, h.nodup⟩)
  bound := by
    intro b it hit
    by_cases hb : b = a
    · rw [hb, update_self] at hit
      cases hit
      exact Nat.lt_succ_self _
    · rw [update_of_ne hb] at hit
      exact Nat.lt_succ_of_lt (h.bound b it hit)
  own := by
    intro b it c hit hc
    rcases points_insertAt.mp hc with ⟨rfl, rfl⟩ | hc
    · by_cases hb : b = c
      · exact hb.symm
      · rw [update_of_ne hb] at hit
        have hlt := h.bound b _ hit
        omega
    · by_cases hb : b = a
      · rw [hb, update_self] at hit
        cases hit
        have hlt := hc.lt
        omega
      · rw [update_of_ne hb] at hit
        exact h.own b it c hit hc
  has := by
    intro b hb
    by_cases hba : b = a
    · refine ⟨l.next, ?_, points_insertAt.mpr (Or.inl ⟨rfl, hba⟩)⟩
      rw [hba, update_self]
    · obtain ⟨it, hit, hpoints⟩ := h.has b ((mem_insertAt.mp hb).resolve_left hba)
      refine ⟨it, ?_, points_insertAt.mpr (Or.inr hpoints)⟩
      rw [update_of_ne hba]
      exact hit

/-- `l'` is the list `l` without its element `a`. -/
structure Erased (l l' : IterList α) (iter : α → Option Nat) (a : α) : Prop where
  indexed : l'.Indexed iter
  was : a ∈ l.toList
  mem_iff : ∀ b, b ∈ l'.toList ↔ b ∈ l.toList ∧ b ≠ a
  length : l'.toList.length + 1 = l.toList.length
  sublist : l'.toList.Sublist l.toList

/-- **An element is erased through its iterator**, which is stale from then on. -/
theorem Indexed.erase (h : l.Indexed iter) (hit : iter a = some it) (he : l.erase it = some l') :
    l.Erased l' iter a := by
  obtain ⟨hnext, hsub, c, hc, hperm, hpoints⟩ := erase_cases he
  have hca : c = a := h.own a it c hit hc
  rw [hca] at hc hperm
  have hnodup := nodup_cons.mp (hperm.nodup_iff.mp h.nodup)
  have hmem : ∀ b, b ∈ l'.toList ↔ b ∈ l.toList ∧ b ≠ a := by
    intro b
    rw [hperm.mem_iff, mem_cons]
    constructor
    · exact fun hb => ⟨Or.inr hb, fun heq => hnodup.1 (heq ▸ hb)⟩
    · rintro ⟨hb, hne⟩
      exact hb.resolve_left hne
  refine ⟨⟨hnodup.2, ?_, ?_, ?_⟩, hc.mem, hmem, ?_, hsub⟩
  · intro b it' hb
    rw [hnext]
    exact h.bound b it' hb
  · intro b it' d hb hd
    exact h.own b it' d hb ((hpoints it' d).mp hd).1
  · intro b hb
    obtain ⟨hin, hne⟩ := (hmem b).mp hb
    obtain ⟨it', hit', hpoints'⟩ := h.has b hin
    refine ⟨it', hit', (hpoints it' b).mpr ⟨hpoints', fun heq => hne ?_⟩⟩
    exact h.own a it b hit (heq ▸ hpoints')
  · rw [hperm.length_eq, length_cons]

end IterList

end NvpSim.Lib
