/-
  Sets of destinations (`mem/ruby/common/NetDest.{hh,cc}`): one `Set` for each type of machine.

  `counts` has the number of machines of each type.  `NetRep counts nd D` says that `nd` stands for the machines
  `D`; the operations keep that as long as no type has more than 32 machines, which is where the `Set`s break
  down.
-/
import NvpSim.Ruby.SetRefinement
import Mathlib.Algebra.Ring.Nat

namespace NvpSim.Ruby

open NvpSim.Lib List Option Function

/-- `NetDest`: the member `m_bits`. -/
abbrev NetDest := List RubySet

namespace NetDest

/-- `NetDest()`. -/
def new (counts : List Nat) : NetDest := counts.map RubySet.ofSize

/-- Go through two vectors of sets. -/
def zipM (f : RubySet → RubySet → Option RubySet) : NetDest → NetDest → Option NetDest
  | [], [] => some []
  | s :: nd, t :: nd' => (f s t).bind fun u => (zipM f nd nd').map (u :: ·)
  | _, _ => none

/-- The machine is added to the set of its type. -/
def add (nd : NetDest) (type num : Nat) : Option NetDest :=
  (nd[type]?).bind fun s =>
    if num < s.nSize then (s.add num).map fun s => nd.set type s else none

/-- Remove a set of destinations, type by type. -/
def removeNetDest (nd nd' : NetDest) : Option NetDest := zipM RubySet.removeSet nd nd'

/-- The common destinations, type by type. -/
def and (nd nd' : NetDest) : Option NetDest := zipM RubySet.and nd nd'

/-- The loop stops at the first type with a common machine. -/
def intersectionIsNotEmpty : NetDest → NetDest → Option Bool
  | [], [] => some false
  | s :: nd, t :: nd' =>
    (s.intersectionIsEmpty t).bind fun disjoint =>
      if !disjoint then some true else intersectionIsNotEmpty nd nd'
  | _, _ => none

def isElement (nd : NetDest) (type num : Nat) : Option Bool := (nd[type]?).bind (·.isElement num)

def clear (nd : NetDest) : NetDest := nd.map RubySet.clear

/-- Whether a machine is in the set, and can be looked up. -/
def carries (nd : NetDest) (d : Nat × Nat) : Bool := nd.isElement d.1 d.2 == some true

def count (nd : NetDest) : Nat := nd.foldl (fun counter s => counter + s.count) 0

end NetDest

/-! ## The machines in a set -/

/-- The vector of sets stands for machines. -/
def NetRep : List Nat → NetDest → (Nat → Finset Nat) → Prop
  | [], [], D => ∀ type, D type = ∅
  | n :: counts, s :: nd, D => Rep n s (D 0) ∧ NetRep counts nd fun type => D (type + 1)
  | _, _, _ => False

variable {counts : List Nat} {nd nd' : NetDest} {D E : Nat → Finset Nat}

theorem netRep_new : ∀ counts, NetRep counts (.new counts) fun _ => ∅ := by
  intro counts
  induction counts with
  | nil => exact fun _ => rfl
  | cons n counts ih => exact ⟨rep_ofSize n, ih⟩

/-- Every destination is a machine of the system. -/
theorem NetRep.lt_count : ∀ {counts : List Nat} {nd : NetDest} {D : Nat → Finset Nat},
    NetRep counts nd D → ∀ {type num : Nat}, num ∈ D type → ∃ n, counts[type]? = some n ∧ num < n := by
  intro counts
  induction counts with
  | nil =>
    intro nd D h type num hnum
    cases nd with
    | nil => rw [h type] at hnum; cases hnum
    | cons s nd => exact h.elim
  | cons n counts ih =>
    intro nd D h type num hnum
    cases nd with
    | nil => exact h.elim
    | cons s nd =>
      cases type with
      | zero => exact ⟨n, rfl, Finset.mem_range.mp (h.1.below hnum)⟩
      | succ type => exact ih h.2 hnum

/-- **Membership** is read off the word of the type. -/
theorem NetRep.isElement (hsmall : ∀ n ∈ counts, n ≤ 32) (h : NetRep counts nd D) {type num n : Nat}
    (htype : counts[type]? = some n) (hnum : num < n) : nd.isElement type num = some (decide (num ∈ D type)) := by
  induction counts generalizing nd D type with
  | nil => cases htype
  | cons n' counts ih =>
    cases nd with
    | nil => exact h.elim
    | cons s nd =>
      cases type with
      | zero =>
        cases some.inj htype
        exact h.1.isElement (hsmall _ (mem_cons_self ..)) hnum
      | succ type => exact ih (forall_mem_cons.mp hsmall).2 h.2 htype

/-- Membership as a test that cannot fail. -/
theorem NetRep.carries_iff (hsmall : ∀ n ∈ counts, n ≤ 32) (h : NetRep counts nd D) {type num n : Nat}
    (htype : counts[type]? = some n) (hnum : num < n) : nd.carries (type, num) = true ↔ num ∈ D type := by
  unfold NetDest.carries
  rw [h.isElement hsmall htype hnum]
  simp

theorem NetRep.clear : ∀ {counts : List Nat} {nd : NetDest} {D : Nat → Finset Nat},
    NetRep counts nd D → NetRep counts nd.clear fun _ => ∅ := by
  intro counts
  induction counts with
  | nil =>
    intro nd D h
    cases nd with
    | nil => exact fun _ => rfl
    | cons s nd => exact h.elim
  | cons n counts ih =>
    intro nd D h
    cases nd with
    | nil => exact h.elim
    | cons s nd => exact ⟨h.1.clear, ih h.2⟩

/-- **An operation type by type** on the words is the same operation on the sets. -/
theorem NetRep.zipM {f : RubySet → RubySet → Option RubySet} {g : Finset Nat → Finset Nat → Finset Nat}
    (hg : g ∅ ∅ = ∅) (hf : ∀ {n : Nat} {s t : RubySet} {A B : Finset Nat}, Rep n s A → Rep n t B →
      ∃ u, f s t = some u ∧ Rep n u (g A B)) :
    ∀ {counts : List Nat} {nd nd' : NetDest} {D E : Nat → Finset Nat}, NetRep counts nd D → NetRep counts nd' E →
        ∃ u, NetDest.zipM f nd nd' = some u ∧ NetRep counts u fun type => g (D type) (E type) := by
  intro counts
  induction counts with
  | nil =>
    intro nd nd' D E h h'
    cases nd with
    | cons s nd => exact h.elim
    | nil =>
      cases nd' with
      | cons t nd' => exact h'.elim
      | nil =>
        refine ⟨[], rfl, ?_⟩
        intro type
        show g (D type) (E type) = ∅
        rw [h type, h' type, hg]
  | cons n counts ih =>
    intro nd nd' D E h h'
    cases nd with
    | nil => exact h.elim
    | cons s nd =>
      cases nd' with
      | nil => exact h'.elim
      | cons t nd' =>
        obtain ⟨u, hu, hrep⟩ := hf h.1 h'.1
        obtain ⟨us, hus, hreps⟩ := ih h.2 h'.2
        refine ⟨u :: us, ?_, hrep, hreps⟩
        rw [NetDest.zipM, hu, hus]
        rfl

theorem NetRep.removeNetDest (h : NetRep counts nd D) (h' : NetRep counts nd' E) :
    ∃ u, nd.removeNetDest nd' = some u ∧ NetRep counts u fun type => D type \ E type := by
  refine NetRep.zipM (g := (· \ ·)) (by decide) ?_ h h'
  intro n s t A B hs ht
  exact hs.combine ht (fun w v hw hv => hw.sdiff hv) (Finset.sdiff_subset.trans hs.below)

theorem NetRep.and (h : NetRep counts nd D) (h' : NetRep counts nd' E) :
    ∃ u, nd.and nd' = some u ∧ NetRep counts u fun type => D type ∩ E type := by
  refine NetRep.zipM (g := (· ∩ ·)) (by decide) ?_ h h'
  intro n s t A B hs ht
  exact hs.combine ht (fun w v hw hv => hw.inter hv) (Finset.inter_subset_left.trans hs.below)

/-- **A machine is added**: only the set of its type changes. -/
theorem NetRep.add (hsmall : ∀ n ∈ counts, n ≤ 32) (h : NetRep counts nd D) {type num n : Nat}
    (htype : counts[type]? = some n) (hnum : num < n) : ∃ u, nd.add type num = some u ∧
      NetRep counts u (update D type (insert num (D type))) := by
  induction counts generalizing nd D type with
  | nil => cases htype
  | cons n' counts ih =>
    cases nd with
    | nil => exact h.elim
    | cons s nd =>
      cases type with
      | zero =>
        cases some.inj htype
        obtain ⟨s', hs', hrep⟩ := h.1.add (hsmall _ (mem_cons_self ..)) hnum
        refine ⟨s' :: nd, ?_, ?_, ?_⟩
        · show (if num < s.nSize then _ else none) = _
          rw [h.1.size, if_pos hnum, hs']
          rfl
        · exact hrep
        · have hsame : (fun type => update D 0 (insert num (D 0)) (type + 1)) = fun type => D (type + 1) := by
            funext type
            exact update_of_ne (Nat.succ_ne_zero type) _ _
          rw [hsame]
          exact h.2
      | succ type =>
        obtain ⟨u, hu, hrep⟩ := ih (forall_mem_cons.mp hsmall).2 h.2 htype
        refine ⟨s :: u, ?_, ?_, ?_⟩
        · obtain ⟨t, ht, heq⟩ := bind_eq_some_iff.mp hu
          show (nd[type]?).bind _ = _
          rw [ht, bind_some]
          split at heq
          next hlt =>
            obtain ⟨t', ht', rfl⟩ := map_eq_some_iff.mp heq
            rw [if_pos hlt, ht']
            rfl
          next => cases heq
        · exact h.1
        · have hshift : (fun m => update D (type + 1) (insert num (D (type + 1))) (m + 1)) =
              update (fun m => D (m + 1)) type (insert num (D (type + 1))) := by
            funext m
            by_cases hm : m = type
            · rw [hm, update_self, update_self]
            · rw [update_of_ne hm, update_of_ne (by omega)]
          rw [hshift]
          exact hrep

/-- **The test for a common destination** says whether some type has one. -/
theorem NetRep.intersectionIsNotEmpty : ∀ {counts : List Nat} {nd nd' : NetDest}
    {D E : Nat → Finset Nat}, (∀ n ∈ counts, n ≤ 32) → NetRep counts nd D → NetRep counts nd' E →
      ∃ b, nd.intersectionIsNotEmpty nd' = some b ∧ (b = true ↔ ∃ type num, num ∈ D type ∧ num ∈ E type) := by
  intro counts
  induction counts with
  | nil =>
    intro nd nd' D E _ h h'
    cases nd with
    | cons s nd => exact h.elim
    | nil =>
      cases nd' with
      | cons t nd' => exact h'.elim
      | nil =>
        refine ⟨false, rfl, nofun, ?_⟩
        rintro ⟨type, num, hnum, -⟩
        rw [h type] at hnum
        cases hnum
  | cons n counts ih =>
    intro nd nd' D E hsmall h h'
    cases nd with
    | nil => exact h.elim
    | cons s nd =>
      cases nd' with
      | nil => exact h'.elim
      | cons t nd' =>
        have hdisj := (h.1.agreeTogether h'.1 (hsmall n (mem_cons_self ..))).intersectionIsEmpty
        obtain ⟨b, hb, hiff⟩ := ih (forall_mem_cons.mp hsmall).2 h.2 h'.2
        rw [NetDest.intersectionIsNotEmpty, hdisj, bind_some]
        by_cases hd : Disjoint (D 0) (E 0)
        · refine ⟨b, ?_, hiff.trans ?_⟩
          · rw [decide_eq_true hd, if_neg (by decide), hb]
          · constructor
            · rintro ⟨type, num, hD, hE⟩
              exact ⟨type + 1, num, hD, hE⟩
            · rintro ⟨type, num, hD, hE⟩
              cases type with
              | zero => exact absurd hE (Finset.disjoint_left.mp hd hD)
              | succ type => exact ⟨type, num, hD, hE⟩
        · refine ⟨true, ?_, fun _ => ?_, fun _ => rfl⟩
          · rw [decide_eq_false hd, if_pos (by decide)]
          · obtain ⟨num, hD, hE⟩ := Finset.not_disjoint_iff.mp hd
            exact ⟨0, num, hD, hE⟩

/-- The loop adds up the counts of the types. -/
theorem count_eq_sum (nd : NetDest) : nd.count = (nd.map RubySet.count).sum := by
  have hfold : ∀ (nd : NetDest) (a : Nat),
      nd.foldl (fun counter s => counter + s.count) a = a + (nd.map RubySet.count).sum := by
    intro nd
    induction nd with
    | nil => intro a; rfl
    | cons s nd ih =>
      intro a
      rw [foldl_cons, ih, map_cons, sum_cons]
      omega
  unfold NetDest.count
  rw [hfold, Nat.zero_add]

/-- The count is zero exactly if there is no destination. -/
theorem NetRep.count_eq_zero : ∀ {counts : List Nat} {nd : NetDest} {D : Nat → Finset Nat},
    (∀ n ∈ counts, n ≤ 32) → NetRep counts nd D → (nd.count = 0 ↔ ∀ type, D type = ∅) := by
  intro counts
  induction counts with
  | nil =>
    intro nd D _ h
    cases nd with
    | cons s nd => exact h.elim
    | nil => exact ⟨fun _ => h, fun _ => rfl⟩
  | cons n counts ih =>
    intro nd D hsmall h
    cases nd with
    | nil => exact h.elim
    | cons s nd =>
      have hrest := ih (forall_mem_cons.mp hsmall).2 h.2
      rw [count_eq_sum] at hrest ⊢
      rw [map_cons, sum_cons, h.1.count (hsmall n (mem_cons_self ..))]
      constructor
      · intro hzero type
        cases type with
        | zero => exact Finset.card_eq_zero.mp (by omega)
        | succ type => exact hrest.mp (by omega) type
      · intro hall
        rw [hrest.mpr fun type => hall (type + 1), hall 0, Finset.card_empty]

end NvpSim.Ruby
