/-
  `AddrRangeMap`: a sorted map from ranges to values that is meant to hold disjoint ranges.

  The `std::map` is a list sorted by `operator<`.  `find(r)` looks at ONE neighbour: the range just before
  `upper_bound(r)`, or the first range if there is none.  So a range that starts inside `r` is only seen if
  it is the first of the map; otherwise `insert` accepts what overlaps it (`Hidden`).
-/
import Mathlib.Data.List.TakeWhile
import NvpSim.Lib.Run
import NvpSim.Base.AddrRange

namespace NvpSim.Base

open NvpSim.Lib AddrRange List

/-- `AddrRangeMap<V>`: the entries of `tree` in order. -/
abbrev AddrRangeMap (V : Type) := List (AddrRange × V)

namespace AddrRangeMap

variable {V : Type}

/-- The entries before `upper_bound(r)`. -/
def before (t : AddrRangeMap V) (r : AddrRange) : AddrRangeMap V := t.takeWhile fun e => !r.lt e.1

/-- The entries from `upper_bound(r)` on. -/
def after (t : AddrRangeMap V) (r : AddrRange) : AddrRangeMap V := t.dropWhile fun e => !r.lt e.1

/-- The entry itself if its range intersects `r`, and `end()` otherwise. -/
def check (r : AddrRange) (i : AddrRange × V) : Option (Option (AddrRange × V)) :=
  (i.1.intersects r).map fun hit => if hit then some i else none

/-- The walk back from entry `i` while the ranges are part of the chunk of `orig`; `earlier` are the
    entries before `i`, the nearest first. -/
def walkBack (r orig : AddrRange) (i : AddrRange × V) : List (AddrRange × V) → Option (Option (AddrRange × V))
  | [] => check r i
  | j :: earlier =>
    if i.1.mergesWith orig then
      (j.1.intersects r).bind fun hit => if hit then some (some j) else walkBack r orig j earlier
    else check r i

/-- `find(r)`; `some none` is `end()`. -/
def find (t : AddrRangeMap V) (r : AddrRange) : Option (Option (AddrRange × V)) :=
  match (t.before r).reverse, t.after r with
  | [], [] => some none
  | [], i :: _ => check r i
  | i :: earlier, _ =>
    (i.1.intersects r).bind fun hit =>
      if hit then some (some i)
      -- also step backwards through the ranges of the same chunk
      else if i.1.interleaved then walkBack r i.1 i earlier
      else some none

/-- `tree.insert(make_pair(r, d))`: an equivalent key stays as it is. -/
def treeInsert (t : AddrRangeMap V) (r : AddrRange) (d : V) : AddrRangeMap V × (AddrRange × V) :=
  match (t.before r).getLast? with
  | some i => if i.1.lt r then (t.before r ++ (r, d) :: t.after r, (r, d)) else (t, i)
  | none => ((r, d) :: t, (r, d))

/-- `insert(r, d)`: the map, and the entry or `end()` if the range intersects another. -/
def insert (t : AddrRangeMap V) (r : AddrRange) (d : V) : Option (AddrRangeMap V × Option (AddrRange × V)) :=
  (t.find r).map fun hit =>
    if hit.isSome then (t, none)
    else ((t.treeInsert r d).1, some (t.treeInsert r d).2)

/-- A call that changes the map; iterators are positions. -/
inductive Call (V : Type) where
  | insert (r : AddrRange) (d : V)
  | erase (p : Nat)
  | eraseRange (p q : Nat)
  | clear

/-- Perform a call: `erase(p)`, `erase(p, q)` and `clear()` remove a stretch of the entries. -/
def step (t : AddrRangeMap V) : Call V → Option (AddrRangeMap V)
  | .insert r d => (t.insert r d).map fun result => result.1
  | .erase p => if p < t.length then some (t.eraseIdx p) else none
  | .eraseRange p q => if p ≤ q ∧ q ≤ t.length then some (t.take p ++ t.drop q) else none
  | .clear => some []

/-! ## Maps of disjoint ranges -/

/-- What the map is meant to be: sorted, of plain valid ranges that do not reach each other. -/
structure Good (t : AddrRangeMap V) : Prop where
  sorted : t.Pairwise fun e e' => e.1.lt e'.1 = true
  plain : ∀ e ∈ t, e.1.interleaved = false ∧ e.1.valid = true
  apart : t.Pairwise fun e e' => ¬ Reaches e.1 e'.1

/-- **A range that `find` does not see**: it comes after `r` in the order and reaches it, there are
    ranges before `r`, and none of those reaches it. -/
def Hidden (t : AddrRangeMap V) (r : AddrRange) : Prop :=
  (∃ e ∈ t, r.lt e.1 = true ∧ Reaches e.1 r) ∧ (∃ e ∈ t, r.lt e.1 = false) ∧
    ∀ e ∈ t, r.lt e.1 = false → ¬ Reaches e.1 r

instance (t : AddrRangeMap V) (r : AddrRange) : Decidable (t.Hidden r) :=
  inferInstanceAs (Decidable (_ ∧ _ ∧ _))

/-- A call that keeps a map good: valid plain ranges with no hidden range in their way, and iterators
    into the map. -/
def Proper (t : AddrRangeMap V) : Call V → Prop
  | .insert r _ => r.interleaved = false ∧ r.valid = true ∧ ¬ t.Hidden r
  | .erase p => p < t.length
  | .eraseRange p q => p ≤ q ∧ q ≤ t.length
  | .clear => True

instance (t : AddrRangeMap V) : (c : Call V) → Decidable (Proper t c)
  | .insert _ _ => inferInstanceAs (Decidable (_ ∧ _ ∧ _))
  | .erase _ => inferInstanceAs (Decidable (_ < _))
  | .eraseRange _ _ => inferInstanceAs (Decidable (_ ∧ _))
  | .clear => inferInstanceAs (Decidable True)

variable {t t' : AddrRangeMap V} {r : AddrRange} {e : AddrRange × V} {d : V}

theorem before_append_after (t : AddrRangeMap V) (r : AddrRange) : t.before r ++ t.after r = t :=
  takeWhile_append_dropWhile

theorem not_lt_of_mem_before (h : e ∈ t.before r) : r.lt e.1 = false := by
  simpa using mem_takeWhile_imp h

theorem lt_of_mem_after (hsorted : t.Pairwise fun e e' => e.1.lt e'.1 = true)
    (h : e ∈ t.after r) : r.lt e.1 = true := by
  have hsub : (t.after r).Pairwise fun e e' => e.1.lt e'.1 = true :=
    hsorted.sublist (dropWhile_sublist _)
  cases hafter : t.after r with
  | nil =>
    rw [hafter] at h
    cases h
  | cons i rest =>
    have hi : r.lt i.1 = true := by
      have := head_dropWhile_not (fun e : AddrRange × V => !r.lt e.1) (l := t)
        (by show t.after r ≠ []; rw [hafter]; simp)
      have hhead : (t.after r).head (by rw [hafter]; simp) = i := by simp [hafter]
      simp only [after] at hhead
      rw [hhead] at this
      simpa using this
    rw [hafter] at h hsub
    rcases mem_cons.mp h with rfl | h
    · exact hi
    · exact AddrRange.lt_trans hi ((pairwise_cons.mp hsub).1 e h)

theorem Good.reaches_first {i : AddrRange × V} {rest : AddrRangeMap V} (h : Good (i :: rest))
    (hi : r.lt i.1 = true) (he : e ∈ i :: rest) (hreach : Reaches e.1 r) : Reaches i.1 r := by
  rcases mem_cons.mp he with rfl | he
  · exact hreach
  · have hlt := (pairwise_cons.mp h.sorted).1 e he
    have hapart := (pairwise_cons.mp h.apart).1 e he
    have hlast := last_lt_of_lt hlt (h.plain e (mem_cons_of_mem _ he)).2 hapart
    have hvalid := (h.plain i mem_cons_self).2
    simp only [valid, decide_eq_true_eq] at hvalid
    have hstart := start_le_of_lt hi
    unfold Reaches at *
    omega

theorem Good.not_reaches_earlier {i : AddrRange × V} {pre post : AddrRangeMap V}
    (h : Good (pre ++ i :: post)) (hi : r.lt i.1 = false) (he : e ∈ pre) : ¬ Reaches e.1 r := by
  have hlt := (pairwise_append.mp h.sorted).2.2 e he i mem_cons_self
  have hapart := (pairwise_append.mp h.apart).2.2 e he i mem_cons_self
  have hlast := last_lt_of_lt hlt (h.plain i (by simp)).2 hapart
  have hstart : i.1.start ≤ r.start := start_le_of_not_lt (by simp [hi])
  unfold Reaches
  omega

theorem check_plain {i : AddrRange × V} (hi : i.1.interleaved = false) (hr : r.interleaved = false) :
    check r i = some (if Reaches i.1 r then some i else none) := by
  simp [check, intersects_plain hi hr]

/-- **What `find` tells about a good map**: it returns an entry that reaches `r`, or nothing; and it
    returns one whenever there is one, except if that one is hidden. -/
theorem Good.find_plain (h : Good t) (hr : r.interleaved = false) :
    ∃ res, t.find r = some res ∧ (∀ e ∈ res, e ∈ t ∧ Reaches e.1 r) ∧
      ((res.isSome = true ↔ ∃ e ∈ t, Reaches e.1 r) ↔ ¬ t.Hidden r) := by
  have hsplit := before_append_after t r
  unfold find
  cases hb : (t.before r).reverse with
  | nil =>
    have hbefore : t.before r = [] := by simpa using hb
    rw [hbefore, nil_append] at hsplit
    -- nothing is before `r`, so nothing is hidden
    have hafter : ∀ e ∈ t, r.lt e.1 = true := fun e he => by
      exact lt_of_mem_after h.sorted (by rw [hsplit]; exact he)
    have hnot : ¬ t.Hidden r := by
      rintro ⟨-, ⟨e, he, hlt⟩, -⟩
      rw [hafter e he] at hlt
      cases hlt
    rw [hsplit]
    cases t with
    | nil => exact ⟨none, rfl, by simp, by simp [Hidden]⟩
    | cons i rest =>
      refine ⟨_, check_plain (h.plain i mem_cons_self).1 hr, ?_, ?_⟩
      · intro e he
        split at he
        · cases he
          exact ⟨mem_cons_self, by assumption⟩
        · cases he
      · refine iff_of_true ⟨fun hres => ?_, ?_⟩ hnot
        · split at hres
          · exact ⟨i, mem_cons_self, by assumption⟩
          · cases hres
        · rintro ⟨e, he, hreach⟩
          rw [if_pos (h.reaches_first (hafter i mem_cons_self) he hreach)]
          rfl
  | cons i earlier =>
    have hbefore : t.before r = earlier.reverse ++ [i] := by
      rw [← reverse_reverse (t.before r), hb, reverse_cons]
    have hi : r.lt i.1 = false := not_lt_of_mem_before (by rw [hbefore]; simp)
    rw [hbefore, append_assoc] at hsplit
    have hmem : i ∈ t := by rw [← hsplit]; simp
    have hplain := (h.plain i hmem).1
    show ∃ res, ((i.1.intersects r).bind fun hit => if hit then some (some i)
      else if i.1.interleaved then walkBack r i.1 i earlier else some none) = some res ∧ _
    rw [intersects_plain hplain hr]
    by_cases hreach : Reaches i.1 r
    · refine ⟨some i, by simp [hreach], ?_, ?_⟩
      · rintro e ⟨⟩
        exact ⟨hmem, hreach⟩
      · refine iff_of_true ⟨fun _ => ⟨i, hmem, hreach⟩, fun _ => rfl⟩ ?_
        rintro ⟨-, -, hnone⟩
        exact hnone i hmem hi hreach
    · refine ⟨none, by simp [hreach, hplain], by simp, ?_⟩
      -- only a range after `r` can reach it now
      have hbeforeNone : ∀ e ∈ t, r.lt e.1 = false → ¬ Reaches e.1 r := by
        intro e he hlt
        rw [← hsplit] at he h
        rcases mem_append.mp he with he | he
        · exact h.not_reaches_earlier hi he
        · rcases mem_cons.mp he with rfl | he
          · exact hreach
          · rw [hsplit] at h
            rw [lt_of_mem_after h.sorted he] at hlt
            cases hlt
      constructor
      · rintro hiff ⟨⟨e, he, -, hreach'⟩, -, -⟩
        cases hiff.mpr ⟨e, he, hreach'⟩
      · intro hnot
        refine ⟨nofun, ?_⟩
        rintro ⟨e, he, hreach'⟩
        refine absurd ⟨⟨e, he, ?_, hreach'⟩, ⟨i, hmem, hi⟩, hbeforeNone⟩ hnot
        by_contra hlt
        exact hbeforeNone e he (by simpa using hlt) hreach'

/-! ## The calls keep a map good -/

theorem good_empty : Good ([] : AddrRangeMap V) :=
  ⟨List.Pairwise.nil, nofun, List.Pairwise.nil⟩

theorem Good.sublist (h : Good t) (hsub : t'.Sublist t) : Good t' :=
  ⟨h.sorted.sublist hsub, fun e he => h.plain e (hsub.subset he), h.apart.sublist hsub⟩

theorem lt_of_mem_before (he : e ∈ t.before r) (hv : r.valid = true) (hve : e.1.valid = true)
    (hapart : ¬ Reaches e.1 r) : e.1.lt r = true := by
  have hnot := not_lt_of_mem_before he
  rw [← Bool.not_eq_true, lt_iff] at hnot
  simp only [valid, decide_eq_true_eq] at hv hve
  unfold Reaches at hapart
  rw [lt_iff]
  omega

theorem Good.treeInsert_eq (h : Good t) (hv : r.valid = true) (hfree : ∀ e ∈ t, ¬ Reaches e.1 r) :
    t.treeInsert r d = (t.before r ++ (r, d) :: t.after r, (r, d)) := by
  have hsplit := before_append_after t r
  unfold treeInsert
  cases hlast : (t.before r).getLast? with
  | none =>
    have hbefore : t.before r = [] := getLast?_eq_none_iff.mp hlast
    rw [hbefore, nil_append] at hsplit
    rw [hbefore, hsplit]
    rfl
  | some i =>
    have hi : i ∈ t.before r := mem_of_getLast? hlast
    have hmem : i ∈ t := by
      rw [← hsplit]
      exact mem_append_left _ hi
    simp [lt_of_mem_before hi hv (h.plain i hmem).2 (hfree i hmem)]

/-- **Inserting a range that reaches no other keeps the map good.** -/
theorem Good.treeInsert (h : Good t) (hr : r.interleaved = false) (hv : r.valid = true)
    (hfree : ∀ e ∈ t, ¬ Reaches e.1 r) : Good (t.treeInsert r d).1 := by
  rw [h.treeInsert_eq hv hfree]
  have hsplit := before_append_after t r
  have hmem : ∀ e, e ∈ t ↔ e ∈ t.before r ∨ e ∈ t.after r := by
    intro e
    rw [← mem_append, hsplit]
  have hsorted := h.sorted
  have hapart := h.apart
  rw [← hsplit, pairwise_append] at hsorted hapart
  refine ⟨?_, ?_, ?_⟩
  · refine pairwise_append.mpr ⟨hsorted.1, pairwise_cons.mpr ⟨fun e he => ?_, hsorted.2.1⟩, fun e he => ?_⟩
    · exact lt_of_mem_after h.sorted he
    · have hmem' := (hmem e).mpr (Or.inl he)
      have hlt := lt_of_mem_before he hv (h.plain e hmem').2 (hfree e hmem')
      exact forall_mem_cons.mpr ⟨hlt, hsorted.2.2 e he⟩
  · intro e he
    rcases mem_append.mp he with he | he
    · exact h.plain e ((hmem e).mpr (Or.inl he))
    · rcases mem_cons.mp he with rfl | he
      · exact ⟨hr, hv⟩
      · exact h.plain e ((hmem e).mpr (Or.inr he))
  · refine pairwise_append.mpr ⟨hapart.1, pairwise_cons.mpr ⟨fun e he => ?_, hapart.2.1⟩, fun e he => ?_⟩
    · exact fun hreach => hfree e ((hmem e).mpr (Or.inr he)) ⟨hreach.2, hreach.1⟩
    · exact forall_mem_cons.mpr ⟨hfree e ((hmem e).mpr (Or.inl he)), hapart.2.2 e he⟩

theorem insert_eq {res : Option (AddrRange × V)} (hfind : t.find r = some res) :
    t.insert r d = some (if res.isSome then (t, none)
      else ((t.treeInsert r d).1, some (t.treeInsert r d).2)) := by
  rw [insert, hfind]
  rfl

theorem Good.step {c : Call V} (h : Good t) (hc : Proper t c) (hs : t.step c = some t') : Good t' := by
  cases c with
  | insert r d =>
    obtain ⟨hr, hv, hnot⟩ := hc
    obtain ⟨res, hfind, -, hiff⟩ := h.find_plain hr
    rw [AddrRangeMap.step, insert_eq hfind] at hs
    cases res with
    | some e =>
      cases hs
      exact h
    | none =>
      cases hs
      refine h.treeInsert hr hv fun e he hreach => ?_
      cases (hiff.mpr hnot).mpr ⟨e, he, hreach⟩
  | erase p =>
    obtain ⟨-, heq⟩ := Option.ite_none_right_eq_some.mp hs
    cases heq
    exact h.sublist (eraseIdx_sublist _ _)
  | eraseRange p q =>
    obtain ⟨hpq, heq⟩ := Option.ite_none_right_eq_some.mp hs
    cases heq
    have hdrop : (t.drop q).Sublist (t.drop p) := by
      rw [← Nat.add_sub_cancel' hpq.1, ← drop_drop]
      exact drop_sublist _ _
    have hsub := hdrop.append_left (t.take p)
    rw [take_append_drop] at hsub
    exact h.sublist hsub
  | clear =>
    cases hs
    exact good_empty

theorem good_of_run {cs : List (Call V)} (h : Run (Guarded (stepOf AddrRangeMap.step) Proper) [] cs t) : Good t :=
  h.inv (P := Good) (fun _ _ _ hgood hs => hgood.step hs.2 hs.1) good_empty

/-- **The map is right as long as no range is hidden, and wrong otherwise.**  After every sequence of
    proper calls the stored ranges are disjoint, and for every plain range `r`: what `find(r)` returns
    is stored and intersects `r`; it returns an entry if and only if there is one that does, provided
    that none is hidden from `r` — and only then; and the same is true of what `insert` refuses. -/
theorem range_map_exact_iff {cs : List (Call V)} (h : Run (Guarded (stepOf AddrRangeMap.step) Proper) [] cs t) :
    (t.Pairwise fun e e' => ¬ Meets e.1 e'.1) ∧ ∀ r : AddrRange, r.interleaved = false → (∃ res, t.find r = some res ∧
        (∀ e ∈ res, e ∈ t ∧ e.1.intersects r = some true) ∧
        ((res.isSome = true ↔ ∃ e ∈ t, e.1.intersects r = some true) ↔ ¬ t.Hidden r)) ∧
      (r.valid = true → ∀ d : V, ∃ t' res, t.insert r d = some (t', res) ∧
        ((res = none ↔ ∃ e ∈ t, Meets e.1 r) ↔ ¬ t.Hidden r)) := by
  have hgood := good_of_run h
  have hinter : ∀ r : AddrRange, r.interleaved = false → ∀ e ∈ t, (e.1.intersects r = some true ↔ Reaches e.1 r) := by
    intro r hr e he
    rw [intersects_plain (hgood.plain e he).1 hr]
    simp
  refine ⟨?_, fun r hr => ?_⟩
  · refine hgood.apart.imp_of_mem fun he he' hapart => ?_
    obtain ⟨hp, hv⟩ := hgood.plain _ he
    obtain ⟨hp', hv'⟩ := hgood.plain _ he'
    rw [meets_plain hp hp' hv hv']
    exact hapart
  · obtain ⟨res, hfind, hsound, hiff⟩ := hgood.find_plain hr
    refine ⟨⟨res, hfind, fun e he => ?_, ?_⟩, fun hv d => ?_⟩
    · obtain ⟨hmem, hreach⟩ := hsound e he
      exact ⟨hmem, (hinter r hr e hmem).mpr hreach⟩
    · rw [← hiff, exists_congr fun e => and_congr_right fun he => hinter r hr e he]
    · have hmeets : (∃ e ∈ t, Meets e.1 r) ↔ ∃ e ∈ t, Reaches e.1 r :=
        exists_congr fun e => and_congr_right fun he =>
          meets_plain (hgood.plain e he).1 hr (hgood.plain e he).2 hv
      refine ⟨_, _, insert_eq hfind, ?_⟩
      rw [← hiff, hmeets]
      cases res with
      | none =>
        show (some _ = none ↔ _) ↔ (false = true ↔ _)
        simp
      | some e =>
        show (none = none ↔ _) ↔ (true = true ↔ _)
        simp

/-- `range_map_exact_iff` at two ranges in a map, one of which was refused first. -/
theorem range_map_exact_iff_two : ∃ t : AddrRangeMap Nat, exec (guardFn AddrRangeMap.step Proper) []
        [.insert (ofEnds 0 9) 1, .insert (ofEnds 5 6) 2, .insert (ofEnds 20 29) 3] = some t ∧
      t.map (fun e => e.2) = [1, 3] ∧ (t.Pairwise fun e e' => ¬ Meets e.1 e'.1) := by
  have hrun : exec (guardFn AddrRangeMap.step Proper) []
      [.insert (ofEnds 0 9) 1, .insert (ofEnds 5 6) 2, .insert (ofEnds 20 29) 3] =
      some [(ofEnds 0 9, 1), (ofEnds 20 29, 3)] := by decide +kernel
  exact ⟨_, hrun, rfl, (range_map_exact_iff (exec_guardFn_iff.mp hrun)).1⟩

/-- **Two overlapping ranges in one map**: with `[0, 9]` and `[20, 29]` in it, `find` does not see that
    `[20, 29]` intersects `[15, 25]`, and `insert` accepts that range. -/
theorem insert_overlapping : ∃ t t' : AddrRangeMap Nat,
      exec AddrRangeMap.step [] [.insert (ofEnds 0 9) 1, .insert (ofEnds 20 29) 2] = some t ∧
      t.find (ofEnds 15 25) = some none ∧ (∃ e ∈ t, e.1.intersects (ofEnds 15 25) = some true) ∧
      t.insert (ofEnds 15 25) 3 = some (t', some (ofEnds 15 25, 3)) ∧ ¬ t'.Pairwise fun e e' => ¬ Meets e.1 e'.1 := by
  refine ⟨[(ofEnds 0 9, 1), (ofEnds 20 29, 2)], [(ofEnds 0 9, 1), (ofEnds 15 25, 3), (ofEnds 20 29, 2)],
    by decide +kernel, by decide +kernel, by decide +kernel, by decide +kernel, ?_⟩
  intro hpair
  have hmeet : Meets (ofEnds 15 25) (ofEnds 20 29) := ⟨20, by decide, by decide⟩
  exact (pairwise_cons.mp (pairwise_cons.mp hpair).2).1 (ofEnds 20 29, 2) mem_cons_self hmeet

end AddrRangeMap

end NvpSim.Base
