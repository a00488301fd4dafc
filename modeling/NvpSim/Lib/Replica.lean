/-
  Replicated lines: many copies of one value over a backing store.

  A `Line` is ONE line of memory: a copy in each place, with the marks valid, writable and dirty, and the value
  of the backing store.

  `Exclusive` is about the marks: a writable copy is the only valid one, and at most one copy is dirty.  `Holds v` is
  about the values: every valid copy has `v`, and so has the backing store unless a copy is dirty.  Operations
  on a line (a copy is set, demoted, dropped, written back) keep both, so a value that a line supplies is the
  one it holds (`Holds.supplied`).
-/
import Mathlib.Logic.Function.Basic

namespace NvpSim.Lib

/-- A mark that comes only with another is not there without it. -/
theorem mark_false {a b : Bool} (h : a = true → b = true) (hb : b = false) : a = false := by
  cases a with
  | false => rfl
  | true => exact (h rfl).symm.trans hb

/-- A copy in one place. -/
structure Replica (V : Type) where
  valid : Bool
  writable : Bool
  dirty : Bool
  data : V

/-- One line: the copies, and the value in the backing store. -/
@[ext]
structure Line (I V : Type) where
  copy : I → Replica V
  backing : V

namespace Replica

variable {V : Type}

/-- A copy that is no longer there. -/
def dropped (r : Replica V) : Replica V := ⟨false, false, false, r.data⟩

theorem dropped_eq {r : Replica V} (hv : r.valid = false) (hw : r.writable = false)
    (hd : r.dirty = false) : r.dropped = r := by
  obtain ⟨valid, writable, dirty, data⟩ := r
  cases hv
  cases hw
  cases hd
  rfl

/-- A copy that may no longer be written. -/
def demoted (r : Replica V) : Replica V := { r with writable := false }

end Replica

namespace Line

variable {I V : Type} {x : Line I V} {i : I} {r : Replica V} {v w : V}

/-- The marks: a writable copy is the only valid one, and at most one copy is dirty. -/
structure Exclusive (x : Line I V) : Prop where
  valid_of_writable : ∀ i, (x.copy i).writable = true → (x.copy i).valid = true
  valid_of_dirty : ∀ i, (x.copy i).dirty = true → (x.copy i).valid = true
  sole : ∀ i j, (x.copy i).writable = true → (x.copy j).valid = true → j = i
  owner : ∀ i j, (x.copy i).dirty = true → (x.copy j).dirty = true → j = i

/-- The values: all valid copies hold `v`, and the backing store too unless a copy is dirty. -/
structure Holds (x : Line I V) (v : V) : Prop where
  copies : ∀ i, (x.copy i).valid = true → (x.copy i).data = v
  backing : (∀ i, (x.copy i).dirty = false) → x.backing = v

/-- What the source of a request is told: the dirty copy of another place, or the backing store.
    The source may be a place or somebody without a copy. -/
structure Supplied (x : Line I V) (src : Option I) (w : V) : Prop where
  dirty : ∀ j, some j ≠ src → (x.copy j).dirty = true → w = (x.copy j).data
  backing : (∀ j, some j ≠ src → (x.copy j).dirty = false) → w = x.backing

/-- **A source without a dirty copy of its own is told the value of the line.** -/
theorem Holds.supplied {src : Option I} (h : x.Holds v) (hx : x.Exclusive)
    (hsrc : ∀ j, some j = src → (x.copy j).dirty = false) (hw : x.Supplied src w) : w = v := by
  by_cases hd : ∃ j, some j ≠ src ∧ (x.copy j).dirty = true
  · obtain ⟨j, hj, hdirty⟩ := hd
    rw [hw.dirty j hj hdirty]
    exact h.copies j (hx.valid_of_dirty j hdirty)
  · have hclean : ∀ j, some j ≠ src → (x.copy j).dirty = false := by
      intro j hj
      by_contra hdirty
      exact hd ⟨j, hj, by simpa using hdirty⟩
    rw [hw.backing hclean]
    refine h.backing fun j => ?_
    by_cases hj : some j = src
    · exact hsrc j hj
    · exact hclean j hj

theorem Exclusive.of_copy_eq {y : Line I V} (h : x.Exclusive) (hc : ∀ i, y.copy i = x.copy i) : y.Exclusive := by
  obtain ⟨copy, backing⟩ := y
  obtain rfl : copy = x.copy := funext hc
  exact ⟨h.valid_of_writable, h.valid_of_dirty, h.sole, h.owner⟩

variable [DecidableEq I]

/-! ## Transitions -/

/-- Place `i` comes in as a reader with copy `r`. -/
def readBy (x : Line I V) (i : I) (r : Replica V) : Line I V :=
  ⟨fun j => if j = i then r else (x.copy j).demoted, x.backing⟩

/-- Place `i` becomes the only one, with copy `r`. -/
def ownedBy (x : Line I V) (i : I) (r : Replica V) : Line I V :=
  ⟨fun j => if j = i then r else (x.copy j).dropped, x.backing⟩

/-- The copy of place `i` changes. -/
def setCopy (x : Line I V) (i : I) (r : Replica V) : Line I V :=
  { x with copy := Function.update x.copy i r }

/-- Place `i` drops its copy, and writes it back if it is dirty. -/
def evict (x : Line I V) (i : I) : Line I V :=
  ⟨Function.update x.copy i (x.copy i).dropped,
    if (x.copy i).dirty then (x.copy i).data else x.backing⟩

theorem Exclusive.readBy (h : x.Exclusive) (hr : r.valid = true) (hclean : r.dirty = false)
    (hsole : r.writable = true → ∀ j, j ≠ i → (x.copy j).valid = false) : (x.readBy i r).Exclusive where
  valid_of_writable := by
    intro j hj
    by_cases hji : j = i
    · simpa [Line.readBy, hji] using hr
    · simp [Line.readBy, hji, Replica.demoted] at hj
  valid_of_dirty := by
    intro j hj
    by_cases hji : j = i
    · simpa [Line.readBy, hji] using hr
    · simp only [Line.readBy, hji, if_false, Replica.demoted] at hj ⊢
      exact h.valid_of_dirty j hj
  sole := by
    intro j k hj hk
    by_cases hji : j = i
    · subst hji
      by_contra hkj
      simp only [Line.readBy, if_true, hkj, if_false, Replica.demoted] at hj hk
      rw [hsole hj k hkj] at hk
      cases hk
    · simp [Line.readBy, hji, Replica.demoted] at hj
  owner := by
    intro j k hj hk
    have hother : ∀ l, ((x.readBy i r).copy l).dirty = true → (x.copy l).dirty = true := by
      intro l hl
      by_cases hli : l = i
      · simp [Line.readBy, hli, hclean] at hl
      · simpa [Line.readBy, hli, Replica.demoted] using hl
    exact h.owner j k (hother j hj) (hother k hk)

theorem Holds.readBy (h : x.Holds v) (hi : (x.copy i).dirty = false) (hr : r.data = v) : (x.readBy i r).Holds v where
  copies := by
    intro j hj
    by_cases hji : j = i
    · simpa [Line.readBy, hji] using hr
    · simp only [Line.readBy, hji, if_false, Replica.demoted] at hj ⊢
      exact h.copies j hj
  backing := by
    intro hall
    refine h.backing fun j => ?_
    by_cases hji : j = i
    · rw [hji]; exact hi
    · simpa [Line.readBy, hji, Replica.demoted] using hall j

theorem ownedBy_valid_iff {j : I} (hr : r.valid = true) : ((x.ownedBy i r).copy j).valid = true ↔ j = i := by
  by_cases hji : j = i
  · simp [ownedBy, hji, hr]
  · simp [ownedBy, hji, Replica.dropped]

theorem exclusive_ownedBy (hr : r.valid = true) : (x.ownedBy i r).Exclusive := by
  have hvalid : ∀ j, ((x.ownedBy i r).copy j).writable = true ∨ ((x.ownedBy i r).copy j).dirty = true → j = i := by
    intro j hj
    by_contra hji
    simp [ownedBy, hji, Replica.dropped] at hj
  refine ⟨?_, ?_, ?_, ?_⟩
  · intro j hj
    exact (ownedBy_valid_iff hr).mpr (hvalid j (Or.inl hj))
  · intro j hj
    exact (ownedBy_valid_iff hr).mpr (hvalid j (Or.inr hj))
  · intro j k hj hk
    rw [(ownedBy_valid_iff hr).mp hk, hvalid j (Or.inl hj)]
  · intro j k hj hk
    rw [hvalid j (Or.inr hj), hvalid k (Or.inr hk)]

theorem holds_ownedBy (hr : r.valid = true) (hdata : r.data = v)
    (hclean : r.dirty = false → x.backing = v) : (x.ownedBy i r).Holds v where
  copies := by
    intro j hj
    obtain rfl := (ownedBy_valid_iff hr).mp hj
    simpa [ownedBy] using hdata
  backing := by
    intro hall
    have := hall i
    simp only [ownedBy, if_true] at this
    exact hclean this

theorem Exclusive.setCopy_eq (h : x.Exclusive) (hw : (x.copy i).writable = true) : x.setCopy i r = x.ownedBy i r := by
  unfold setCopy ownedBy
  congr 1
  funext j
  by_cases hji : j = i
  · simp [hji]
  · have hinv : (x.copy j).valid = false := by
      by_contra hv
      exact hji (h.sole i j hw (by simpa using hv))
    have hnw : (x.copy j).writable = false := mark_false (h.valid_of_writable j) hinv
    have hnd : (x.copy j).dirty = false := mark_false (h.valid_of_dirty j) hinv
    rw [Function.update_of_ne hji, if_neg hji, Replica.dropped_eq hinv hnw hnd]

theorem Exclusive.evict (h : x.Exclusive) (i : I) : (x.evict i).Exclusive := by
  have hcopy : ∀ j, j ≠ i → (x.evict i).copy j = x.copy j := by
    intro j hj
    simp [Line.evict, hj]
  have hgone : (x.evict i).copy i = (x.copy i).dropped := by simp [Line.evict]
  have hne : ∀ j, ((x.evict i).copy j).valid = true ∨ ((x.evict i).copy j).writable = true ∨
      ((x.evict i).copy j).dirty = true → j ≠ i := by
    rintro j hj rfl
    simp [hgone, Replica.dropped] at hj
  refine ⟨?_, ?_, ?_, ?_⟩
  · intro j hj
    have hji := hne j (Or.inr (Or.inl hj))
    rw [hcopy j hji] at hj ⊢
    exact h.valid_of_writable j hj
  · intro j hj
    have hji := hne j (Or.inr (Or.inr hj))
    rw [hcopy j hji] at hj ⊢
    exact h.valid_of_dirty j hj
  · intro j k hj hk
    rw [hcopy j (hne j (Or.inr (Or.inl hj)))] at hj
    rw [hcopy k (hne k (Or.inl hk))] at hk
    exact h.sole j k hj hk
  · intro j k hj hk
    rw [hcopy j (hne j (Or.inr (Or.inr hj)))] at hj
    rw [hcopy k (hne k (Or.inr (Or.inr hk)))] at hk
    exact h.owner j k hj hk

theorem Holds.evict (h : x.Holds v) (hx : x.Exclusive) (i : I) : (x.evict i).Holds v where
  copies := by
    intro j hj
    by_cases hji : j = i
    · subst hji
      simp [Line.evict, Replica.dropped] at hj
    · simp only [Line.evict, Function.update_of_ne hji] at hj ⊢
      exact h.copies j hj
  backing := by
    intro hall
    show (if (x.copy i).dirty then (x.copy i).data else x.backing) = v
    cases hd : (x.copy i).dirty with
    | true =>
      exact h.copies i (hx.valid_of_dirty i hd)
    | false =>
      refine h.backing fun j => ?_
      by_cases hji : j = i
      · rw [hji]; exact hd
      · simpa [Line.evict, hji] using hall j

end Line

end NvpSim.Lib
