/-
  `SymbolTable` (`base/loader/symtab.{hh,cc}`): symbols by address and addresses by symbol.

  `insert` puts the address in its table before it looks whether the symbol is known: if it is, the call
  fails and the address stays.  `findNearestSymbol` reads the entry behind its result, also where there is none.

  The table by address is a sorted list, and the search for the nearest symbol is one for the last entry that is
  not beyond the address.  An insert that finds the address taken changes nothing, so the failed calls that do
  are those of a known symbol at a free address (`Fresh` excludes them).
-/
import Mathlib.Data.List.Basic
import NvpSim.Lib.Run

namespace NvpSim.Base

open NvpSim.Lib List

/-- `std::map<Addr, std::string>`: the entries in the order of their addresses. -/
structure ATable where
  entries : List (Nat × String)
  sorted : entries.Pairwise fun e e' => e.1 < e'.1

namespace ATable

/-- The address has an entry. -/
def Has (t : ATable) (address : Nat) : Prop := ∃ e ∈ t.entries, e.1 = address

instance (t : ATable) (address : Nat) : Decidable (t.Has address) :=
  inferInstanceAs (Decidable (∃ e ∈ t.entries, e.1 = address))

/-- The entries not above the address. -/
def below (t : ATable) (addr : Nat) : List (Nat × String) := t.entries.filter (·.1 ≤ addr)

/-- The entries above it. -/
def above (t : ATable) (addr : Nat) : List (Nat × String) := t.entries.filter (addr < ·.1)

/-- A new entry at its place. -/
def add (t : ATable) (address : Nat) (symbol : String) : ATable where
  entries := t.entries.filter (·.1 < address) ++ (address, symbol) :: t.above address
  sorted := by
    refine pairwise_append.mpr ⟨t.sorted.filter _, pairwise_cons.mpr ⟨?_, t.sorted.filter _⟩, ?_⟩
    · intro e he
      exact of_decide_eq_true (mem_filter.mp he).2
    · intro e he e' he'
      have hlow : e.1 < address := of_decide_eq_true (mem_filter.mp he).2
      rcases mem_cons.mp he' with rfl | he'
      · exact hlow
      · exact Nat.lt_trans hlow (of_decide_eq_true (mem_filter.mp he').2)

/-- `upperBound(addr, iter)`: the entry before the iterator, and the one it points to unless it is at
    the end. -/
def upperBound (t : ATable) (addr : Nat) : Option ((Nat × String) × Option (Nat × String)) :=
  (t.below addr).getLast?.map fun e => (e, (t.above addr).head?)

/-- `findNearestSymbol(addr, symbol, symaddr)`. -/
def findNearestSymbol (t : ATable) (addr : Nat) : Option (String × Nat) :=
  (t.upperBound addr).map fun i => (i.1.2, i.1.1)

/-- The overload with `nextaddr`: `some none` is `false`, and `none` a read past the end of the table. -/
def findNearestSymbolNext (t : ATable) (addr : Nat) : Option (Option (String × Nat × Nat)) :=
  match t.upperBound addr with
  | none => some none
  | some (e, next) => next.map fun e' => some (e.2, e.1, e'.1)

/-- The symbol with the greatest address not above the given one. -/
def Nearest (t : ATable) (addr : Nat) (symbol : String) (symaddr : Nat) : Prop :=
  (symaddr, symbol) ∈ t.entries ∧ symaddr ≤ addr ∧ ∀ e ∈ t.entries, e.1 ≤ addr → e.1 ≤ symaddr

/-- The address of the next symbol. -/
def Next (t : ATable) (addr nextaddr : Nat) : Prop :=
  t.Has nextaddr ∧ addr < nextaddr ∧ ∀ e ∈ t.entries, addr < e.1 → nextaddr ≤ e.1

end ATable

/-- The two tables. -/
structure SymbolTable where
  addrTable : ATable
  symbolTable : String → Option Nat

namespace SymbolTable

def new : SymbolTable := ⟨⟨[], .nil⟩, fun _ => none⟩

def insert (t : SymbolTable) (address : Nat) (symbol : String) : SymbolTable × Bool :=
  if symbol = "" then (t, false)
  else if t.addrTable.Has address then (t, false)
  else
    let t := { t with addrTable := t.addrTable.add address symbol }
    if (t.symbolTable symbol).isSome then (t, false)
    else ({ t with symbolTable := fun s => if s = symbol then some address else t.symbolTable s }, true)

/-- The inserts one after another. -/
def step (t : SymbolTable) (c : Nat × String) : Option SymbolTable := some (t.insert c.1 c.2).1

/-- No free address is given to a symbol that is known. -/
def Fresh (t : SymbolTable) (c : Nat × String) : Prop :=
  c.2 = "" ∨ t.addrTable.Has c.1 ∨ t.symbolTable c.2 = none

instance (t : SymbolTable) (c : Nat × String) : Decidable (t.Fresh c) :=
  inferInstanceAs (Decidable (_ ∨ _ ∨ _))

/-- Every symbol of the symbol table is listed under its address. -/
def Listed (t : SymbolTable) : Prop :=
  ∀ s a, t.symbolTable s = some a → (a, s) ∈ t.addrTable.entries

/-- And vice versa. -/
def Known (t : SymbolTable) : Prop :=
  ∀ s a, (a, s) ∈ t.addrTable.entries → t.symbolTable s = some a

end SymbolTable

/-! ## The search -/

namespace ATable

variable {t : ATable} {a addr : Nat} {s : String} {e : Nat × String}

theorem nearest_of_getLast (h : (t.below addr).getLast? = some e) : t.Nearest addr e.2 e.1 := by
  obtain ⟨init, hinit⟩ := getLast?_eq_some_iff.mp h
  have hsorted : (t.below addr).Pairwise _ := t.sorted.filter _
  rw [hinit, pairwise_append] at hsorted
  obtain ⟨hmem, hle⟩ := mem_filter.mp (show e ∈ t.below addr from hinit ▸ mem_concat_self)
  refine ⟨hmem, of_decide_eq_true hle, fun e' he' hle' => ?_⟩
  have hbelow : e' ∈ t.below addr := mem_filter.mpr ⟨he', decide_eq_true hle'⟩
  rw [hinit, mem_append, mem_singleton] at hbelow
  rcases hbelow with hbelow | rfl
  · exact Nat.le_of_lt (hsorted.2.2 e' hbelow e (mem_singleton_self e))
  · exact Nat.le_refl _

theorem next_of_head (h : (t.above addr).head? = some e) : t.Next addr e.1 := by
  obtain ⟨rest, hrest⟩ := head?_eq_some_iff.mp h
  have hsorted : (t.above addr).Pairwise _ := t.sorted.filter _
  rw [hrest, pairwise_cons] at hsorted
  obtain ⟨hmem, hlt⟩ := mem_filter.mp (show e ∈ t.above addr from hrest ▸ mem_cons_self)
  refine ⟨⟨e, hmem, rfl⟩, of_decide_eq_true hlt, fun e' he' hlt' => ?_⟩
  have habove : e' ∈ t.above addr := mem_filter.mpr ⟨he', decide_eq_true hlt'⟩
  rw [hrest, mem_cons] at habove
  rcases habove with rfl | habove
  · exact Nat.le_refl _
  · exact Nat.le_of_lt (hsorted.1 e' habove)

/-- **What the search finds.**  It fails when all symbols lie above the address, and otherwise finds the
    nearest symbol; but the overload with `nextaddr` reads past the end of the table when no symbol lies
    above. -/
theorem findNearestSymbol_exact (t : ATable) (addr : Nat) :
    ((∀ e ∈ t.entries, addr < e.1) ∧ t.findNearestSymbol addr = none ∧
        t.findNearestSymbolNext addr = some none) ∨ ∃ symbol symaddr, t.Nearest addr symbol symaddr ∧
        t.findNearestSymbol addr = some (symbol, symaddr) ∧ ((∃ nextaddr, t.Next addr nextaddr ∧
            t.findNearestSymbolNext addr = some (some (symbol, symaddr, nextaddr))) ∨
          ((∀ e ∈ t.entries, e.1 ≤ addr) ∧ t.findNearestSymbolNext addr = none)) := by
  unfold findNearestSymbolNext findNearestSymbol upperBound
  cases hbelow : (t.below addr).getLast? with
  | none =>
    have hall := filter_eq_nil_iff.mp (getLast?_eq_none_iff.mp hbelow)
    exact Or.inl ⟨fun e he => by simpa using hall e he, rfl, rfl⟩
  | some e =>
    refine Or.inr ⟨e.2, e.1, nearest_of_getLast hbelow, rfl, ?_⟩
    cases habove : (t.above addr).head? with
    | none =>
      have hall := filter_eq_nil_iff.mp (head?_eq_none_iff.mp habove)
      exact Or.inr ⟨fun e he => by simpa using hall e he, rfl⟩
    | some next => exact Or.inl ⟨next.1, next_of_head habove, rfl⟩

/-- **Past the end**: the symbol is found, but there is none behind it. -/
theorem findNearestSymbol_past_end :
    (SymbolTable.new.insert 16 "main").1.addrTable.findNearestSymbol 20 = some ("main", 16) ∧
      (SymbolTable.new.insert 16 "main").1.addrTable.findNearestSymbolNext 20 = none := by
  decide

theorem mem_add (hnew : ¬ t.Has a) : e ∈ (t.add a s).entries ↔ e = (a, s) ∨ e ∈ t.entries := by
  have hne : e ∈ t.entries → e.1 < a ∨ a < e.1 := fun he =>
    Nat.lt_or_gt_of_ne fun heq => hnew ⟨e, he, heq⟩
  unfold add above
  simp only [mem_append, mem_cons, mem_filter, decide_eq_true_eq]
  tauto

end ATable

/-! ## The inserts -/

namespace SymbolTable

variable {t : SymbolTable} {a : Nat} {s : String}

theorem Listed.insert (h : t.Listed) : (t.insert a s).1.Listed := by
  unfold SymbolTable.insert
  dsimp only
  split_ifs with hempty hhas hknown
  · exact h
  · exact h
  · exact fun x b hx => (ATable.mem_add hhas).mpr (Or.inr (h x b hx))
  · intro x b hx
    replace hx : (if x = s then some a else t.symbolTable x) = some b := hx
    refine (ATable.mem_add hhas).mpr ?_
    by_cases hxs : x = s
    · rw [if_pos hxs] at hx
      cases hx
      exact Or.inl (by rw [hxs])
    · rw [if_neg hxs] at hx
      exact Or.inr (h x b hx)

theorem not_fresh (hempty : s ≠ "") (hhas : ¬ t.addrTable.Has a)
    (hknown : (t.symbolTable s).isSome = true) : ¬ t.Fresh (a, s) := by
  rintro (hno | hno | hno)
  · exact hempty hno
  · exact hhas hno
  · rw [show t.symbolTable s = none from hno] at hknown
    cases hknown

theorem Known.insert_iff (h : t.Known) (hlisted : t.Listed) : (t.insert a s).1.Known ↔ t.Fresh (a, s) := by
  unfold SymbolTable.insert
  dsimp only
  split_ifs with hempty hhas hknown
  · exact ⟨fun _ => Or.inl hempty, fun _ => h⟩
  · exact ⟨fun _ => Or.inr (Or.inl hhas), fun _ => h⟩
  · refine ⟨fun hall => ?_, fun hfresh => absurd hfresh (not_fresh hempty hhas hknown)⟩
    -- the symbol would be known under the new address
    have haddr := hall s a ((ATable.mem_add hhas).mpr (Or.inl rfl))
    exact absurd ⟨_, hlisted s a haddr, rfl⟩ hhas
  · have hnone := Option.not_isSome_iff_eq_none.mp hknown
    refine ⟨fun _ => Or.inr (Or.inr hnone), fun _ x b hb => ?_⟩
    show (if x = s then some a else t.symbolTable x) = some b
    rcases (ATable.mem_add hhas).mp hb with hb | hb
    · cases hb
      exact if_pos rfl
    · have hx := h x b hb
      rw [if_neg (fun heq => by rw [heq] at hx; exact hknown (by rw [hx]; rfl)), hx]

theorem unchanged_iff : ((t.insert a s).2 = false → (t.insert a s).1 = t) ↔ t.Fresh (a, s) := by
  unfold SymbolTable.insert
  dsimp only
  split_ifs with hempty hhas hknown
  · exact ⟨fun _ => Or.inl hempty, fun _ _ => rfl⟩
  · exact ⟨fun _ => Or.inr (Or.inl hhas), fun _ _ => rfl⟩
  · refine ⟨fun hsame => absurd ⟨(a, s), ?_, rfl⟩ hhas,
      fun hfresh => absurd hfresh (not_fresh hempty hhas hknown)⟩
    rw [← congrArg addrTable (hsame rfl)]
    exact (ATable.mem_add hhas).mpr (Or.inl rfl)
  · exact ⟨fun _ => Or.inr (Or.inr (Option.not_isSome_iff_eq_none.mp hknown)), nofun⟩

/-- **The inserts.**  After every sequence of inserts the symbols of the symbol table are listed under
    their addresses, and an insert leaves the tables unchanged when it fails if and only if it is
    fresh.  After a sequence of fresh inserts every entry of the address table is known as well, and the
    next insert keeps that if and only if it is fresh. -/
theorem insert_atomic_iff {cs : List (Nat × String)} (hrun : Run (stepOf step) new cs t) : t.Listed ∧
      (∀ c, ((t.insert c.1 c.2).2 = false → (t.insert c.1 c.2).1 = t) ↔ t.Fresh c) ∧
      (Run (Guarded (stepOf step) Fresh) new cs t → t.Known ∧ ∀ c, (t.insert c.1 c.2).1.Known ↔ t.Fresh c) := by
  have hlisted : t.Listed := by
    refine hrun.inv (P := Listed) (fun t c t' ht hs => ?_) nofun
    cases hs
    exact ht.insert
  refine ⟨hlisted, fun c => unchanged_iff, fun hfresh => ?_⟩
  have hboth : t.Listed ∧ t.Known := by
    refine hfresh.inv (P := fun t => t.Listed ∧ t.Known) ?_ ⟨nofun, nofun⟩
    rintro t c t' ⟨hl, hk⟩ ⟨hs, hc⟩
    cases hs
    exact ⟨hl.insert, (hk.insert_iff hl).mpr hc⟩
  exact ⟨hboth.2, fun c => hboth.2.insert_iff hlisted⟩

theorem insert_atomic_two_symbols :
    ∃ t, Run (Guarded (stepOf step) Fresh) new [(16, "main"), (32, "exit"), (16, "start")] t ∧
      t.Listed ∧ t.Known := by
  refine run_observe (fun _ => ()) () (by decide) fun t ht _ => ?_
  obtain ⟨hlisted, -, hknown⟩ := insert_atomic_iff ht.unguard
  exact ⟨hlisted, (hknown ht).1⟩

/-- **A known symbol at a free address**: the insert fails, and the address stays. -/
theorem failed_insert_keeps_address : ((new.insert 16 "main").1.insert 32 "main").2 = false ∧
      ((new.insert 16 "main").1.insert 32 "main").1.addrTable.entries = [(16, "main"), (32, "main")] ∧
      ((new.insert 16 "main").1.insert 32 "main").1.symbolTable "main" = some 16 := by
  decide

end SymbolTable

end NvpSim.Base
