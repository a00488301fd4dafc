/-
  Segments of singly linked lists.

  A heap of list cells is a function `next : I → Option I` (`none` is the null pointer).  `Seg next p xs stop`
  says that following `next` from `p` visits the cells `xs` in order and then arrives at `stop`.

  Code that changes one pointer is `Function.update next x v`.  A segment without `x` does not notice
  (`update_of_notMem`); one that ends with `x` gets a new end (`relink`); and with the two a cell is taken out of
  the middle of a list (`unlink`).
-/
import Mathlib.Logic.Function.Basic

namespace NvpSim.Lib

open List

variable {I : Type}

/-- Following `next` from `p` visits `xs` in order and arrives at `stop`. -/
def Seg (next : I → Option I) : Option I → List I → Option I → Prop
  | p, [], stop => p = stop
  | p, x :: xs, stop => p = some x ∧ Seg next (next x) xs stop

namespace Seg

variable {next : I → Option I} {p stop : Option I} {x : I} {xs ys zs : List I}

@[simp] theorem nil_iff : Seg next p [] stop ↔ p = stop := Iff.rfl

@[simp] theorem cons_iff : Seg next p (x :: xs) stop ↔ p = some x ∧ Seg next (next x) xs stop := Iff.rfl

/-- A segment is cut in two at any cell. -/
theorem append_iff : Seg next p (xs ++ ys) stop ↔ ∃ mid, Seg next p xs mid ∧ Seg next mid ys stop := by
  induction xs generalizing p with
  | nil => exact ⟨fun h => ⟨p, rfl, h⟩, fun ⟨mid, hp, h⟩ => by rw [nil_iff] at hp; exact hp ▸ h⟩
  | cons x xs ih =>
    simp only [cons_append, cons_iff, ih]
    exact ⟨fun ⟨hp, mid, h, h'⟩ => ⟨mid, ⟨hp, h⟩, h'⟩, fun ⟨mid, ⟨hp, h⟩, h'⟩ => ⟨hp, mid, h, h'⟩⟩

/-- A whole list is reached through its first cell. -/
theorem head?_eq (h : Seg next p xs none) : p = xs.head? := by
  cases xs with
  | nil => exact h
  | cons x xs => exact h.1

variable [DecidableEq I]

/-- **Frame**: a link that is not in the segment does not matter. -/
theorem update_of_notMem {v : Option I} (hx : x ∉ xs) (h : Seg next p xs stop) :
    Seg (Function.update next x v) p xs stop := by
  induction xs generalizing p with
  | nil => exact h
  | cons y ys ih =>
    have hne : y ≠ x := fun hc => hx (hc ▸ mem_cons_self)
    rw [cons_iff, Function.update_of_ne hne]
    exact ⟨h.1, ih (fun hm => hx (mem_cons_of_mem _ hm)) h.2⟩

/-- The last cell of a segment is linked to something else. -/
theorem relink {v mid : Option I} (h : Seg next p (xs ++ [x]) mid) (hx : x ∉ xs) :
    Seg (Function.update next x v) p (xs ++ [x]) v := by
  obtain ⟨m, hm, hlast⟩ := append_iff.mp h
  rw [append_iff]
  exact ⟨m, hm.update_of_notMem hx, hlast.1, by rw [Function.update_self]; rfl⟩

/-- **Removal**: the cell before `y` is linked to the one after it. -/
theorem unlink {y : I} (h : Seg next p (xs ++ x :: y :: ys) none) (hnd : (xs ++ x :: y :: ys).Nodup) :
    Seg (Function.update next x (next y)) p (xs ++ x :: ys) none := by
  rw [nodup_append] at hnd
  obtain ⟨-, hnd', hdisj⟩ := hnd
  have hx : x ∉ xs := fun hm => hdisj _ hm _ mem_cons_self rfl
  have hx' : x ∉ ys := fun hm => (nodup_cons.mp hnd').1 (mem_cons_of_mem _ hm)
  obtain ⟨mid, hfirst, hp, hnext, hlast⟩ := append_iff.mp h
  have hcut : Seg next p (xs ++ [x]) (next x) := append_iff.mpr ⟨mid, hfirst, hp, rfl⟩
  rw [← singleton_append, ← append_assoc, append_iff]
  exact ⟨next y, hcut.relink hx, hlast.update_of_notMem hx'⟩

end Seg
end NvpSim.Lib
