/-
  Agendas: sorted lists in which ties are broken last in, first out.

  `enter` puts a new entry in front of the first one that is not smaller, so of equal keys the one entered LAST
  stands first; `strike` drops the entries of an item.

  Keys are compared by a linear order; that an item is entered once at a time is not assumed, and `strike` drops all
  of its entries.  `enter_lifo` is the order among equal keys, `head_first` that the first entry has a least key.
-/
import Mathlib.Data.List.Sort

namespace NvpSim.Lib.Agenda

open List

variable {K A : Type} {l : List (K × A)} {x y : K × A} {stamp : A → Nat}

/-- Ties stand in the order of their stamps, youngest first. -/
def Lifo (stamp : A → Nat) (l : List (K × A)) : Prop :=
  l.Pairwise (fun a b => a.1 = b.1 → stamp b.2 < stamp a.2)

theorem Lifo.congr {stamp stamp' : A → Nat} (h : Lifo stamp l)
    (heq : ∀ y ∈ l, stamp' y.2 = stamp y.2) : Lifo stamp' l := by
  refine h.imp_of_mem ?_
  intro a b ha hb hlt hkey
  rw [heq a ha, heq b hb]
  exact hlt hkey

section Strike

variable [DecidableEq A] {a : A}

/-- Strike out an item. -/
def strike (l : List (K × A)) (a : A) : List (K × A) := l.filter (fun x => x.2 ≠ a)

theorem mem_strike : y ∈ strike l a ↔ y ∈ l ∧ y.2 ≠ a := by simp [strike]

theorem Lifo.strike (h : Lifo stamp l) (a : A) : Lifo stamp (strike l a) := h.filter _

/-- The key under which an item is entered: that of its first entry. -/
def keyOf (l : List (K × A)) (a : A) : Option K := (l.find? (·.2 = a)).map (·.1)

end Strike

variable [LinearOrder K]

/-- Keys do not decrease. -/
def Sorted (l : List (K × A)) : Prop := l.Pairwise (fun a b => a.1 ≤ b.1)

theorem Sorted.strike [DecidableEq A] (h : Sorted l) (a : A) : Sorted (strike l a) := h.filter _

/-- Enter an item in front of the first entry that is not smaller. -/
def enter (l : List (K × A)) (x : K × A) : List (K × A) := l.orderedInsert (fun a b => a.1 ≤ b.1) x

theorem Sorted.enter (h : Sorted l) (x : K × A) : Sorted (enter l x) := by
  exact h.orderedInsert x l

/-- **Last in, first out**: a new entry has only smaller keys in front of it, and everything else
    behind it. -/
theorem enter_lifo (h : Sorted l) (x : K × A) :
    ∃ before after, l = before ++ after ∧ enter l x = before ++ x :: after ∧
      (∀ y ∈ before, y.1 < x.1) ∧ ∀ y ∈ after, x.1 ≤ y.1 := by
  induction l with
  | nil => exact ⟨[], [], rfl, rfl, by simp, by simp⟩
  | cons a l ih =>
    obtain ⟨hhead, htail⟩ := pairwise_cons.mp h
    by_cases hle : x.1 ≤ a.1
    · refine ⟨[], a :: l, rfl, orderedInsert_cons_of_le _ _ hle, by simp, ?_⟩
      exact forall_mem_cons.mpr ⟨hle, fun y hy => hle.trans (hhead y hy)⟩
    · obtain ⟨before, after, hl, hins, hb, ha⟩ := ih htail
      refine ⟨a :: before, after, by rw [hl]; rfl, ?_, ?_, ha⟩
      · rw [Agenda.enter, orderedInsert_cons, if_neg hle]
        exact congrArg (a :: ·) hins
      · exact forall_mem_cons.mpr ⟨not_le.mp hle, hb⟩

theorem Lifo.enter (h : Lifo stamp l) (hs : Sorted l) (x : K × A)
    (hyoung : ∀ y ∈ l, stamp y.2 < stamp x.2) : Lifo stamp (enter l x) := by
  obtain ⟨before, after, hl, hins, hb, -⟩ := enter_lifo hs x
  rw [hins]
  subst hl
  obtain ⟨h₁, h₂, hcross⟩ := pairwise_append.mp h
  refine pairwise_append.mpr ⟨h₁, pairwise_cons.mpr ⟨?_, h₂⟩, ?_⟩
  · exact fun y hy _ => hyoung y (mem_append_right _ hy)
  · intro y hy z hz hkey
    rcases mem_cons.mp hz with rfl | hz
    · exact absurd hkey (hb y hy).ne
    · exact hcross y hy z hz hkey

/-- **The first entry is due first**: no key is smaller, and of equal keys it is the youngest. -/
theorem head_first (hs : Sorted (x :: l)) (hl : Lifo stamp (x :: l)) (hy : y ∈ l) :
    x.1 < y.1 ∨ (x.1 = y.1 ∧ stamp y.2 < stamp x.2) := by
  rcases ((pairwise_cons.mp hs).1 y hy).lt_or_eq with hlt | heq
  · exact Or.inl hlt
  · exact Or.inr ⟨heq, (pairwise_cons.mp hl).1 y hy heq⟩

end NvpSim.Lib.Agenda
