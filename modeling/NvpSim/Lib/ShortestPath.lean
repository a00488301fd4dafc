/-
  All-pairs shortest paths by relaxation in place.

  A table of distances starts as a table of weights.  A pass lowers each entry to the best sum over an
  intermediate node, using the entries that the SAME pass has lowered already, until a pass changes nothing.  A
  pass that changes nothing leaves a table that satisfies the triangle inequality (`Closed`), and then every
  entry is the length of a SHORTEST walk.
-/
import Mathlib.Algebra.Order.BigOperators.Group.Finset

namespace NvpSim.Lib.ShortestPath

open List Function

/-- A table of weights or distances. -/
abbrev Table := Nat → Nat → Int

variable (n : Nat) (plus : Int → Int → Int)

/-- The least of an entry and the sums over all intermediate nodes. -/
def relax (d : Table) (i j : Nat) : Int :=
  (range n).foldl (fun minimum k => min minimum (plus (d i k) (d k j))) (d i j)

/-- Lower one entry, and note whether it has changed. -/
def relaxAt (s : Table × Bool) (p : Nat × Nat) : Table × Bool :=
  if s.1 p.1 p.2 ≠ relax n plus s.1 p.1 p.2 then
    (update s.1 p.1 (update (s.1 p.1) p.2 (relax n plus s.1 p.1 p.2)), true)
  else s

/-- All pairs, row by row. -/
def pairs : List (Nat × Nat) :=
  (range n).flatMap fun i => (range n).map fun j => (i, j)

/-- One pass over the table. -/
def pass (d : Table) : Table × Bool := (pairs n).foldl (relaxAt n plus) (d, false)

/-- Passes until nothing changes, at most `fuel` of them. -/
def extend : Nat → Table → Option Table
  | 0, _ => none
  | fuel + 1, d =>
    let s := pass n plus d
    if s.2 then extend fuel s.1 else some s.1

/-- The length of a walk. -/
inductive Walk (w : Table) : Nat → Nat → Int → Prop where
  | edge {i j : Nat} (hi : i < n) (hj : j < n) : Walk w i j (w i j)
  | trans {i k j : Nat} {a b : Int} (h : Walk w i k a) (h' : Walk w k j b) : Walk w i j (a + b)

/-- Distances between zero and the weight, each of them the length of a walk. -/
structure Sound (w d : Table) : Prop where
  nonneg : ∀ {i j}, i < n → j < n → 0 ≤ d i j
  le_weight : ∀ {i j}, i < n → j < n → d i j ≤ w i j
  walk : ∀ {i j}, i < n → j < n → Walk n w i j (d i j)

/-- The triangle inequality. -/
def Closed (d : Table) : Prop := ∀ {i k j}, i < n → k < n → j < n → d i j ≤ d i k + d k j

/-- The sum of all entries. -/
def total (d : Table) : Nat := ∑ i ∈ Finset.range n, ∑ j ∈ Finset.range n, (d i j).toNat

variable {n plus} {w d d' : Table} {i j k f : Nat} {bound : Int}

theorem mem_pairs : (i, j) ∈ pairs n ↔ i < n ∧ j < n := by
  unfold pairs
  simp

/-! ## The least of several numbers -/

theorem foldl_min_le_init (g : Nat → Int) (l : List Nat) (a : Int) : l.foldl (fun m k => min m (g k)) a ≤ a := by
  induction l generalizing a with
  | nil => exact le_refl a
  | cons k l ih => exact (ih _).trans (min_le_left _ _)

theorem foldl_min_le_mem {g : Nat → Int} {l : List Nat} (hk : k ∈ l) (a : Int) :
    l.foldl (fun m k => min m (g k)) a ≤ g k := by
  induction l generalizing a with
  | nil => cases hk
  | cons k' l ih =>
    rcases mem_cons.mp hk with rfl | hk
    · exact (foldl_min_le_init g l _).trans (min_le_right _ _)
    · exact ih hk _

theorem foldl_min_cases (g : Nat → Int) (l : List Nat) (a : Int) :
    l.foldl (fun m k => min m (g k)) a = a ∨ ∃ k ∈ l, l.foldl (fun m k => min m (g k)) a = g k := by
  induction l generalizing a with
  | nil => exact Or.inl rfl
  | cons k l ih =>
    rcases ih (min a (g k)) with h | ⟨k', hk', h⟩
    · rcases min_choice a (g k) with hmin | hmin
      · exact Or.inl (h.trans hmin)
      · exact Or.inr ⟨k, mem_cons_self .., h.trans hmin⟩
    · exact Or.inr ⟨k', mem_cons_of_mem _ hk', h⟩

/-! ## Relaxing -/

section Exact

variable (hplus : ∀ a b, 0 ≤ a → a ≤ bound → 0 ≤ b → b ≤ bound → plus a b = a + b)
  (hbound : ∀ i j, i < n → j < n → w i j ≤ bound)

include hplus hbound

section

variable (h : Sound n w d) (hi : i < n)

include h hi

theorem Sound.plus_eq (hk : k < n) (hj : j < n) : plus (d i k) (d k j) = d i k + d k j :=
  hplus _ _ (h.nonneg hi hk) ((h.le_weight hi hk).trans (hbound i k hi hk)) (h.nonneg hk hj)
    ((h.le_weight hk hj).trans (hbound k j hk hj))

theorem Sound.relax_le_sum (hk : k < n) (hj : j < n) : relax n plus d i j ≤ d i k + d k j := by
  rw [← h.plus_eq hplus hbound hi hk hj]
  exact foldl_min_le_mem (g := fun k => plus (d i k) (d k j)) (mem_range.mpr hk) _

theorem Sound.relax_cases (hj : j < n) :
    relax n plus d i j = d i j ∨ ∃ k < n, relax n plus d i j = d i k + d k j := by
  rcases foldl_min_cases (fun k => plus (d i k) (d k j)) (range n) (d i j) with
    heq | ⟨k, hk, heq⟩
  · exact Or.inl heq
  · have hk := mem_range.mp hk
    exact Or.inr ⟨k, hk, heq.trans (h.plus_eq hplus hbound hi hk hj)⟩

/-- **One entry is lowered** to the length of another walk. -/
theorem Sound.relaxAt (hj : j < n) : Sound n w (update d i (update (d i) j (relax n plus d i j))) := by
  have hle : relax n plus d i j ≤ d i j := foldl_min_le_init _ _ _
  have hcases := h.relax_cases hplus hbound hi hj
  have hentry : ∀ i' j', update d i (update (d i) j (relax n plus d i j)) i' j' =
      if i' = i ∧ j' = j then relax n plus d i j else d i' j' := by
    intro i' j'
    by_cases hi' : i' = i
    · subst hi'
      rw [update_self]
      by_cases hj' : j' = j
      · rw [hj', update_self, if_pos ⟨rfl, rfl⟩]
      · rw [update_of_ne hj', if_neg fun h => hj' h.2]
    · rw [update_of_ne hi', if_neg fun h => hi' h.1]
  have hwalk : 0 ≤ relax n plus d i j ∧ Walk n w i j (relax n plus d i j) := by
    rcases hcases with heq | ⟨k, hk, heq⟩
    · rw [heq]
      exact ⟨h.nonneg hi hj, h.walk hi hj⟩
    · rw [heq]
      exact ⟨add_nonneg (h.nonneg hi hk) (h.nonneg hk hj), .trans (h.walk hi hk) (h.walk hk hj)⟩
  refine ⟨?_, ?_, ?_⟩
  · intro i' j' hi' hj'
    rw [hentry]
    split
    · exact hwalk.1
    · exact h.nonneg hi' hj'
  · intro i' j' hi' hj'
    rw [hentry]
    split
    next heq =>
      rw [heq.1, heq.2]
      exact hle.trans (h.le_weight hi hj)
    next => exact h.le_weight hi' hj'
  · intro i' j' hi' hj'
    rw [hentry]
    split
    next heq =>
      rw [heq.1, heq.2]
      exact hwalk.2
    next => exact h.walk hi' hj'

end

/-- **Part of a pass**: the table stays sound and does not grow; either nothing happened, since no entry could
    be lowered, or some entry is lower. -/
theorem Sound.foldl_relaxAt : ∀ (ps : List (Nat × Nat)) {d : Table} (b : Bool), Sound n w d →
    (∀ p ∈ ps, p ∈ pairs n) → Sound n w (ps.foldl (ShortestPath.relaxAt n plus) (d, b)).1 ∧
      (∀ i j, (ps.foldl (ShortestPath.relaxAt n plus) (d, b)).1 i j ≤ d i j) ∧
      ((ps.foldl (ShortestPath.relaxAt n plus) (d, b) = (d, b) ∧ ∀ p ∈ ps, relax n plus d p.1 p.2 = d p.1 p.2) ∨
        ((ps.foldl (ShortestPath.relaxAt n plus) (d, b)).2 = true ∧
          ∃ i j, i < n ∧ j < n ∧ (ps.foldl (ShortestPath.relaxAt n plus) (d, b)).1 i j < d i j)) := by
  intro ps
  induction ps with
  | nil =>
    intro d b h _
    exact ⟨h, fun _ _ => le_refl _, Or.inl ⟨rfl, nofun⟩⟩
  | cons p ps ih =>
    intro d b h hps
    obtain ⟨hi, hj⟩ := mem_pairs.mp (hps p (mem_cons_self ..))
    have hps' : ∀ q ∈ ps, q ∈ pairs n := (forall_mem_cons.mp hps).2
    rw [foldl_cons]
    by_cases hne : d p.1 p.2 ≠ relax n plus d p.1 p.2
    · -- the entry is lowered, and stays below what it was
      have hstep : ShortestPath.relaxAt n plus (d, b) p =
          (update d p.1 (update (d p.1) p.2 (relax n plus d p.1 p.2)), true) :=
        if_pos hne
      have hlt : relax n plus d p.1 p.2 < d p.1 p.2 :=
        lt_of_le_of_ne (foldl_min_le_init _ _ _) (Ne.symm hne)
      have hle : ∀ i j, update d p.1 (update (d p.1) p.2 (relax n plus d p.1 p.2)) i j ≤ d i j := by
        intro i j
        by_cases hi' : i = p.1
        · rw [hi', update_self]
          by_cases hj' : j = p.2
          · rw [hj', update_self]
            exact le_of_lt hlt
          · rw [update_of_ne hj']
        · rw [update_of_ne hi']
      rw [hstep]
      obtain ⟨hsound, hmono, hrest⟩ := ih true (h.relaxAt hplus hbound hi hj) hps'
      refine ⟨hsound, fun i j => (hmono i j).trans (hle i j), Or.inr ⟨?_, p.1, p.2, hi, hj, ?_⟩⟩
      · rcases hrest with ⟨heq, -⟩ | ⟨htrue, -⟩
        · rw [heq]
        · exact htrue
      · refine lt_of_le_of_lt (hmono p.1 p.2) ?_
        rw [update_self, update_self]
        exact hlt
    · have hstep : ShortestPath.relaxAt n plus (d, b) p = (d, b) := if_neg hne
      rw [hstep]
      obtain ⟨hsound, hmono, hrest⟩ := ih b h hps'
      refine ⟨hsound, hmono, ?_⟩
      rcases hrest with ⟨heq, hall⟩ | hchange
      · exact Or.inl ⟨heq, forall_mem_cons.mpr ⟨(not_not.mp hne).symm, hall⟩⟩
      · exact Or.inr hchange

omit hplus hbound in
theorem total_lt (hnonneg : ∀ {i j}, i < n → j < n → 0 ≤ d' i j) (hle : ∀ i j, d' i j ≤ d i j)
    (hlt : ∃ i j, i < n ∧ j < n ∧ d' i j < d i j) : total n d' < total n d := by
  obtain ⟨i, j, hi, hj, hij⟩ := hlt
  refine Finset.sum_lt_sum ?_ ⟨i, Finset.mem_range.mpr hi, ?_⟩
  · intro i' _
    exact Finset.sum_le_sum fun j' _ => Int.toNat_le_toNat (hle i' j')
  · refine Finset.sum_lt_sum (fun j' _ => Int.toNat_le_toNat (hle i j')) ⟨j, Finset.mem_range.mpr hj, ?_⟩
    have := hnonneg hi hj
    omega

/-- **The passes come to an end**, with a table that satisfies the triangle inequality. -/
theorem Sound.extend : ∀ {fuel : Nat} {d : Table}, Sound n w d → total n d < fuel →
    ∃ d', ShortestPath.extend n plus fuel d = some d' ∧ Sound n w d' ∧ Closed n d' := by
  intro fuel
  induction fuel with
  | zero =>
    intro d _ hfuel
    omega
  | succ fuel ih =>
    intro d h hfuel
    obtain ⟨hsound, hmono, hrest⟩ := h.foldl_relaxAt hplus hbound (pairs n) false fun p hp => hp
    rw [ShortestPath.extend]
    rcases hrest with ⟨heq, hall⟩ | ⟨htrue, hlt⟩
    · have hpass : pass n plus d = (d, false) := heq
      rw [hpass]
      refine ⟨d, rfl, h, ?_⟩
      intro i k j hi hk hj
      rw [← hall (i, j) (mem_pairs.mpr ⟨hi, hj⟩)]
      exact h.relax_le_sum hplus hbound hi hk hj
    · have htotal := total_lt hsound.nonneg hmono hlt
      have hpass : (pass n plus d).2 = true := htrue
      rw [if_pos hpass]
      exact ih hsound (show total n (pass n plus d).1 < fuel by unfold pass; omega)

end Exact

/-! ## Shortest walks -/

theorem sound_weights (hnonneg : ∀ {i j}, i < n → j < n → 0 ≤ w i j) : Sound n w w :=
  ⟨hnonneg, fun _ _ => le_refl _, fun hi hj => .edge hi hj⟩

theorem Walk.lt {c : Int} (h : Walk n w i j c) : i < n ∧ j < n := by
  induction h with
  | edge hi hj => exact ⟨hi, hj⟩
  | trans _ _ ih ih' => exact ⟨ih.1, ih'.2⟩

section

variable (h : Sound n w d) (hclosed : Closed n d)

include h hclosed

/-- **No walk is shorter than the distance.** -/
theorem Sound.le_walk {c : Int} (hwalk : Walk n w i j c) : d i j ≤ c := by
  induction hwalk with
  | edge hi hj => exact h.le_weight hi hj
  | trans h₁ h₂ ih₁ ih₂ =>
    have htri := hclosed h₁.lt.1 h₁.lt.2 h₂.lt.2
    omega

theorem Sound.first_of_walk {c : Int} (hwalk : Walk n w i k c) :
    (i = k ∧ 0 ≤ c) ∨ ∃ x, x ≠ i ∧ x < n ∧ ∀ f < n, w i x + d x f ≤ c + d k f := by
  induction hwalk with
  | @edge i k hi hk =>
    by_cases heq : i = k
    · subst heq
      exact Or.inl ⟨rfl, (h.nonneg hi hi).trans (h.le_weight hi hi)⟩
    · exact Or.inr ⟨k, fun h => heq h.symm, hk, fun f _ => le_refl _⟩
  | @trans i m k a b h₁ h₂ ih₁ ih₂ =>
    rcases ih₁ with ⟨rfl, ha⟩ | ⟨x, hx, hxn, hfirst⟩
    · rcases ih₂ with ⟨rfl, hb⟩ | ⟨x, hx, hxn, hfirst⟩
      · exact Or.inl ⟨rfl, by omega⟩
      · refine Or.inr ⟨x, hx, hxn, ?_⟩
        intro f hf
        have := hfirst f hf
        omega
    · refine Or.inr ⟨x, hx, hxn, ?_⟩
      intro f hf
      have hle := hfirst f hf
      have htri := hclosed h₂.lt.1 h₂.lt.2 hf
      have hwalk := h.le_walk hclosed h₂
      omega

/-- **A shortest walk has a first step**: to some other node that is nearer by the weight of the step. -/
theorem Sound.first_step (hi : i < n) (hf : f < n)
    (hne : i ≠ f) (hzero : w f f = 0) : ∃ x, x ≠ i ∧ x < n ∧ w i x + d x f = d i f := by
  rcases h.first_of_walk hclosed (h.walk hi hf) with ⟨heq, -⟩ | ⟨x, hx, hxn, hfirst⟩
  · exact absurd heq hne
  · refine ⟨x, hx, hxn, ?_⟩
    have hle := hfirst f hf
    have hself := h.le_weight hf hf
    have htri := hclosed hi hxn hf
    have hweight := h.le_weight hi hxn
    omega

end

end NvpSim.Lib.ShortestPath
