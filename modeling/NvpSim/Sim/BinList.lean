/-
  The list of bins behind the pointers.

  `Rep q bins` says which pointers of a queue are LIVE.  A bin is its top and the events below it; the tops form
  one chain of `nextBin`, each bin one chain of `nextInBin`.

  The loops of the source walk these chains with a pointer; here each walk is the one along the list: `seek_eq` and
  `findInBin_eq` say where it stops.  `insert_linked`, `removeItem_linked` and `remove_linked` say what the
  assignments do to the chains, and `insert_rep` and `remove_rep` what becomes of the contents, which are the
  bins one after the other (`contents_eq`).
-/
import NvpSim.Sim.EventQueue
import NvpSim.Lib.Segment
import Mathlib.Data.List.TakeWhile
import Mathlib.Data.Fintype.Fin

namespace NvpSim.Sim

open NvpSim.Lib List Function

/-- A bin: its top, and the events below it. -/
abbrev Bin (n : Nat) := Fin n × List (Fin n)

/-- All events of a bin, top first. -/
def Bin.all {n : Nat} (b : Bin n) : List (Fin n) := b.1 :: b.2

/-- All events of a list of bins, in the order in which they will be serviced. -/
def flat {n : Nat} (bins : List (Bin n)) : List (Fin n) := bins.flatMap Bin.all

/-- The tops of a list of bins. -/
def tops {n : Nat} (bins : List (Bin n)) : List (Fin n) := bins.map Prod.fst

section

variable {n : Nat} {bins bins' : List (Bin n)} {b : Bin n} {e : Fin n}

@[simp] theorem flat_nil : flat ([] : List (Bin n)) = [] := rfl
@[simp] theorem flat_cons : flat (b :: bins) = b.1 :: b.2 ++ flat bins := rfl
@[simp] theorem flat_append : flat (bins ++ bins') = flat bins ++ flat bins' := flatMap_append
@[simp] theorem tops_nil : tops ([] : List (Bin n)) = [] := rfl
@[simp] theorem tops_cons : tops (b :: bins) = b.1 :: tops bins := rfl
@[simp] theorem tops_append : tops (bins ++ bins') = tops bins ++ tops bins' := map_append

theorem mem_flat : e ∈ flat bins ↔ ∃ b ∈ bins, e = b.1 ∨ e ∈ b.2 := by
  simp [flat, Bin.all]

theorem tops_sublist_flat : (tops bins).Sublist (flat bins) := by
  induction bins with
  | nil => exact List.Sublist.refl _
  | cons b bins ih =>
    exact (ih.trans (sublist_append_right _ _)).cons_cons b.1

theorem mem_flat_of_mem_tops (h : e ∈ tops bins) : e ∈ flat bins := tops_sublist_flat.subset h

end

namespace EventQueue

variable {n : Nat} {q : EventQueue n} {bins pre post : List (Bin n)} {b : Bin n} {e : Fin n}

/-- The pointers of a run of bins from `p` up to `stop`: the tops along `nextBin`, the events below
    each top along `nextInBin`. -/
structure Linked (q : EventQueue n) (p : Option (Fin n)) (bins : List (Bin n))
    (stop : Option (Fin n)) : Prop where
  chain : Seg q.nextBin p (tops bins) stop
  stack : ∀ b ∈ bins, Seg q.nextInBin (q.nextInBin b.1) b.2 none

/-- The keys of a list of bins: equal inside a bin, increasing from bin to bin. -/
structure Keyed (key : Fin n → Tick ×ₗ Int) (bins : List (Bin n)) : Prop where
  same : ∀ b ∈ bins, ∀ e ∈ b.2, key e = key b.1
  sorted : bins.Pairwise (fun b b' => key b.1 < key b'.1)

/-- `q` holds exactly the events of `bins`. -/
structure Rep (q : EventQueue n) (bins : List (Bin n)) : Prop where
  linked : q.Linked q.head bins none
  keyed : Keyed q.key bins
  nodup : (flat bins).Nodup

/-! ## Cutting, framing and hanging runs of bins -/

namespace Linked

variable {p mid stop v : Option (Fin n)}

/-- A list of bins is cut in two between bins. -/
theorem append_iff : q.Linked p (pre ++ post) stop ↔ ∃ mid, q.Linked p pre mid ∧ q.Linked mid post stop := by
  constructor
  · rintro ⟨hchain, hstack⟩
    rw [tops_append, Seg.append_iff] at hchain
    obtain ⟨mid, hpre, hpost⟩ := hchain
    exact ⟨mid, ⟨hpre, fun b hb => hstack b (mem_append_left _ hb)⟩,
      ⟨hpost, fun b hb => hstack b (mem_append_right _ hb)⟩⟩
  · rintro ⟨mid, hpre, hpost⟩
    refine ⟨?_, fun b hb => (mem_append.mp hb).elim (hpre.stack b) (hpost.stack b)⟩
    rw [tops_append, Seg.append_iff]
    exact ⟨mid, hpre.chain, hpost.chain⟩

/-- **Frame**: pointers of other events do not matter. -/
theorem update_of_notMem {w : Option (Fin n)} (h : q.Linked p bins stop) (he : e ∉ flat bins) :
    Linked { q with nextBin := update q.nextBin e v, nextInBin := update q.nextInBin e w } p bins stop where
  chain := h.chain.update_of_notMem (fun hm => he (mem_flat_of_mem_tops hm))
  stack := by
    intro b hb
    have htop : b.1 ≠ e := fun hc => he (mem_flat.mpr ⟨b, hb, Or.inl hc.symm⟩)
    show Seg (update q.nextInBin e w) (update q.nextInBin e w b.1) b.2 none
    rw [update_of_ne htop]
    exact (h.stack b hb).update_of_notMem (fun hm => he (mem_flat.mpr ⟨b, hb, Or.inr hm⟩))

/-- A bin is linked to other bins. -/
theorem hang (hpre : q.Linked p (pre ++ [b]) mid) (hpost : q.Linked v post stop)
    (hnd : (tops (pre ++ [b] ++ post)).Nodup) :
    Linked { q with nextBin := update q.nextBin b.1 v } p (pre ++ [b] ++ post) stop := by
  simp only [tops_append, tops_cons, append_assoc, cons_append, nil_append] at hnd
  have hb : b.1 ∉ tops pre := fun hm =>
    (nodup_append.mp hnd).2.2 _ hm _ mem_cons_self rfl
  have hb' : b.1 ∉ tops post := (nodup_cons.mp (nodup_append.mp hnd).2.1).1
  rw [append_iff]
  refine ⟨v, ⟨?_, hpre.stack⟩, ⟨hpost.chain.update_of_notMem hb', hpost.stack⟩⟩
  have hchain := hpre.chain
  rw [tops_append] at hchain ⊢
  exact hchain.relink hb

end Linked

/-! ## Walking over the bins -/

/-- **The walk along the bins** passes the bins before the event's key and stops at the next. -/
theorem seek_eq {prev : Fin n} {curr : Option (Fin n)} {turns : Nat}
    (h : Seg q.nextBin curr (tops (pre ++ post)) none) (hpre : ∀ b ∈ pre, q.key b.1 < q.key e)
    (hpost : ∀ b ∈ post.head?, ¬ q.key b.1 < q.key e) (hturns : pre.length < turns) : q.seek e turns prev curr =
      some ((prev :: tops pre).getLast (cons_ne_nil _ _), (tops post).head?) := by
  induction pre generalizing prev curr turns with
  | nil =>
    obtain ⟨turns, rfl⟩ : ∃ m, turns = m + 1 := ⟨turns - 1, by omega⟩
    cases post with
    | nil => cases (h : curr = none); rfl
    | cons b post =>
      cases h.1
      have hstop : ¬ (q.obj b.1).lt (q.obj e) := by
        rw [q.lt_iff]; exact hpost b (by simp)
      simp [seek, hstop]
  | cons b pre ih =>
    obtain ⟨turns, rfl⟩ : ∃ m, turns = m + 1 := ⟨turns - 1, by omega⟩
    obtain ⟨rfl, hrest⟩ := h
    have hgo : (q.obj b.1).lt (q.obj e) := by
      rw [q.lt_iff]; exact hpre b mem_cons_self
    rw [seek, if_pos hgo, ih hrest (forall_mem_cons.mp hpre).2 (by simpa using hturns)]
    simp

/-! ## `insert` -/

/-- Put an event in front of the bins that are not before its key: on top of the first of them if
    the keys are equal, else as a bin of its own. -/
def push (key : Fin n → Tick ×ₗ Int) (e : Fin n) : List (Bin n) → List (Bin n)
  | [] => [(e, [])]
  | b :: post => if key e < key b.1 then (e, []) :: b :: post else (e, b.1 :: b.2) :: post

theorem flat_push (key : Fin n → Tick ×ₗ Int) (e : Fin n) (post : List (Bin n)) :
    flat (push key e post) = e :: flat post := by
  cases post with
  | nil => rfl
  | cons b post => by_cases hlt : key e < key b.1 <;> simp [push, hlt]

/-- **`insertBefore`** makes a bin of its own, or puts the event on top of the bin with its key. -/
theorem insertBefore_linked {p : Option (Fin n)} (h : q.Linked p post none) (he : e ∉ flat post) :
    (q.insertBefore e p).Linked (some e) (push q.key e post) none := by
  have hp : p = (tops post).head? := h.chain.head?_eq
  cases post with
  | nil =>
    subst hp
    exact ⟨⟨rfl, by simp [insertBefore]⟩, by simp [push, insertBefore]⟩
  | cons b post =>
    subst hp
    simp only [tops_cons, head?_cons, insertBefore, push, q.lt_iff]
    split
    · have hold := h.update_of_notMem (v := some b.1) (w := none) he
      refine ⟨⟨rfl, ?_⟩, forall_mem_cons.mpr ⟨?_, hold.stack⟩⟩
      · show Seg _ (update q.nextBin e (some b.1) e) _ none
        rw [update_self]
        exact hold.chain
      · show Seg _ (update q.nextInBin e none e) [] none
        rw [update_self]; rfl
    · have hold := h.update_of_notMem (v := q.nextBin b.1) (w := some b.1) he
      have htop : b.1 ≠ e := fun hc => he (by simp [hc])
      refine ⟨⟨rfl, ?_⟩, ?_⟩
      · -- the new top takes over the `nextBin` of the old one
        show Seg _ (update q.nextBin e (q.nextBin b.1) e) _ none
        have hrest : Seg (update q.nextBin e (q.nextBin b.1))
            (update q.nextBin e (q.nextBin b.1) b.1) (tops post) none := hold.chain.2
        rw [update_of_ne htop] at hrest
        rw [update_self]
        exact hrest
      · intro b' hb'
        rcases mem_cons.mp hb' with rfl | hb'
        · show Seg _ (update q.nextInBin e (some b.1) e) (b.1 :: b.2) none
          rw [update_self]
          exact ⟨rfl, hold.stack b mem_cons_self⟩
        · exact hold.stack b' (mem_cons_of_mem _ hb')

theorem insertBefore_frame (q : EventQueue n) (e : Fin n) (p : Option (Fin n)) :
    ∃ v w, q.insertBefore e p = { q with nextBin := update q.nextBin e v, nextInBin := update q.nextInBin e w } := by
  unfold insertBefore
  split
  · exact ⟨_, _, rfl⟩
  · split <;> exact ⟨_, _, rfl⟩

theorem length_le_of_nodup (h : (flat bins).Nodup) : bins.length ≤ n := by
  have hlen := (h.sublist tops_sublist_flat).length_le_card
  simpa [tops] using hlen

/-- The walk from the head stops between the bins. -/
theorem seek_from_head (h : q.Linked q.head (pre ++ [b] ++ post) none)
    (hnd : (flat (pre ++ [b] ++ post)).Nodup) (hpre : ∀ b' ∈ pre ++ [b], q.key b'.1 < q.key e)
    (hpost : ∀ b ∈ post.head?, ¬ q.key b.1 < q.key e) : ∃ h, q.head = some h ∧ q.key h < q.key e ∧
      q.seek e n h (q.nextBin h) = some (b.1, (tops post).head?) := by
  obtain ⟨b₀, pre', hsplit⟩ : ∃ b₀ pre', pre ++ [b] = b₀ :: pre' := by
    cases pre with
    | nil => exact ⟨b, [], rfl⟩
    | cons b₀ pre => exact ⟨b₀, pre ++ [b], rfl⟩
  have hlast : (b₀.1 :: tops pre').getLast (cons_ne_nil _ _) = b.1 := by
    have htops : b₀.1 :: tops pre' = tops pre ++ [b.1] := by
      rw [← tops_cons, ← hsplit, tops_append]; rfl
    simp only [htops, getLast_append_singleton]
  rw [hsplit] at h hnd hpre
  have hlen := length_le_of_nodup hnd
  obtain ⟨hhead, hchain⟩ := h.chain
  refine ⟨b₀.1, hhead, hpre b₀ mem_cons_self, ?_⟩
  rw [seek_eq hchain (forall_mem_cons.mp hpre).2 hpost, hlast]
  simp only [length_append, length_cons] at hlen
  omega

/-- **`insert` links the event where `push` puts it**, and touches pointers only. -/
theorem insert_linked (h : q.Linked q.head (pre ++ post) none) (hnd : (flat (pre ++ post)).Nodup)
    (hpre : ∀ b ∈ pre, q.key b.1 < q.key e)
    (hpost : ∀ b ∈ post.head?, ¬ q.key b.1 < q.key e) (he : e ∉ flat (pre ++ post)) :
    ∃ q', q.insert e = some q' ∧ q'.Linked q'.head (pre ++ push q.key e post) none ∧
      q'.obj = q.obj ∧ q'.curTick = q.curTick ∧ q'.self = q.self := by
  obtain ⟨mid, hLpre, hLpost⟩ := Linked.append_iff.mp h
  simp only [flat_append, mem_append, not_or] at he
  have hins := insertBefore_linked hLpost he.2
  obtain ⟨v, w, hframe⟩ := q.insertBefore_frame e mid
  rcases eq_nil_or_concat pre with rfl | ⟨ps, b, hps⟩
  · -- the head case
    have hmid : q.head = mid := hLpre.chain
    refine ⟨{ q.insertBefore e mid with head := some e }, ?_, ⟨hins.chain, hins.stack⟩, ?_⟩
    · have hhead := hLpost.chain.head?_eq
      cases post with
      | nil => simp [insert, hmid, hhead]
      | cons b post =>
        have hle : (q.obj e).le (q.obj b.1) := by
          rw [q.le_iff]; exact not_lt.mp (hpost b rfl)
        simp [insert, hmid, hhead, hle]
    · rw [hframe]; exact ⟨rfl, rfl, rfl⟩
  · rw [concat_eq_append] at hps
    subst hps
    obtain ⟨h₀, hhead, hlt, hseek⟩ := seek_from_head h hnd hpre hpost
    have hcurr : mid = (tops post).head? := hLpost.chain.head?_eq
    have hnle : ¬ (q.obj e).le (q.obj h₀) := by rw [q.le_iff]; exact not_le.mpr hlt
    have hLpre' := hLpre.update_of_notMem (v := v) (w := w) he.1
    have hpush : (tops (ps ++ [b] ++ push q.key e post)).Nodup := by
      refine List.Nodup.sublist tops_sublist_flat ?_
      rw [flat_append, flat_push, nodup_middle, nodup_cons, mem_append, not_or]
      exact ⟨he, by rwa [← flat_append]⟩
    have hhang := Linked.hang (hframe ▸ hLpre') hins hpush
    have hsame : (q.insertBefore e mid).head = q.head := by rw [hframe]
    rw [← hsame] at hhang
    refine ⟨_, ?_, hhang, ?_⟩
    · simp only [insert, hhead, hnle, if_false, hseek, ← hcurr]
      rfl
    · rw [hframe]; exact ⟨rfl, rfl, rfl⟩

/-! ## `remove` -/

/-- What is left of a bin without one of its events: nothing, the bin below the top, or the same
    top with one event less below it. -/
def without (e : Fin n) (b : Bin n) : List (Bin n) :=
  if e = b.1 then
    match b.2 with
    | [] => []
    | x :: xs => [(x, xs)]
  else [(b.1, b.2.erase e)]

/-- A removal takes one event out. -/
theorem flat_without (e : Fin n) (b : Bin n) : flat (without e b) = (b.1 :: b.2).erase e := by
  obtain ⟨top, below⟩ := b
  by_cases he : e = top
  · subst he
    cases below <;> simp [without]
  · have he' : ¬ top = e := fun hc => he hc.symm
    simp [without, he, erase_cons_tail, he']

/-- **The walk down a bin** stops right above the event. -/
theorem findInBin_eq {curr : Fin n} {next : Option (Fin n)} {above below : List (Fin n)}
    {turns : Nat} (h : Seg q.nextInBin next (above ++ e :: below) none) (he : e ∉ above)
    (hturns : above.length < turns) :
    q.findInBin e turns curr next = some ((curr :: above).getLast (cons_ne_nil _ _)) := by
  induction above generalizing curr next turns with
  | nil =>
    obtain ⟨turns, rfl⟩ : ∃ m, turns = m + 1 := ⟨turns - 1, by omega⟩
    obtain ⟨rfl, -⟩ := h
    simp [findInBin]
  | cons x above ih =>
    obtain ⟨turns, rfl⟩ : ∃ m, turns = m + 1 := ⟨turns - 1, by omega⟩
    obtain ⟨rfl, hrest⟩ := h
    have hne : e ≠ x := fun hc => he (hc ▸ mem_cons_self)
    rw [findInBin, if_neg hne, ih hrest (fun hm => he (mem_cons_of_mem _ hm)) (by simpa using hturns)]
    simp

/-- **`removeItem` on the rest of the list**, when the event is in its first bin.  Only pointers of
    that bin change. -/
theorem removeItem_linked (h : q.Linked (some b.1) (b :: post) none) (he : e ∈ b.all)
    (hnd : (flat (b :: post)).Nodup) :
    ∃ q' p, q.removeItem e b.1 = some (q', p) ∧ q'.Linked p (without e b ++ post) none ∧
      ∃ x ∈ b.all, ∃ v w, q' = { q with nextBin := update q.nextBin x v, nextInBin := update q.nextInBin x w } := by
  have hrest : q.Linked (q.nextBin b.1) post none :=
    ⟨h.chain.2, (forall_mem_cons.mp h.stack).2⟩
  have hstack := h.stack b mem_cons_self
  obtain ⟨top, below⟩ := b
  by_cases htop : e = top
  · subst htop
    cases below with
    | nil =>
      have hnone : q.nextInBin e = none := hstack
      refine ⟨q, q.nextBin e, by simp [removeItem, hnone], by simpa [without] using hrest, e,
        mem_cons_self, q.nextBin e, q.nextInBin e, ?_⟩
      rw [update_eq_self, update_eq_self]
    | cons x xs =>
      -- the event below becomes the top and takes over the `nextBin` pointer
      obtain ⟨hnext, hxs⟩ := hstack
      have hnext' : q.nextInBin e = some x := hnext
      have hx : x ∉ tops post := by
        intro hm
        have hnd' := nodup_append.mp hnd
        exact hnd'.2.2 x (by simp [Bin.all]) x (mem_flat_of_mem_tops hm) rfl
      refine ⟨{ q with nextBin := update q.nextBin x (q.nextBin e) }, some x,
        by simp [removeItem, hnext'], ?_, x, by simp [Bin.all], q.nextBin e, q.nextInBin x, ?_⟩
      · refine ⟨?_, ?_⟩
        · simp only [without, if_true, cons_append, nil_append, tops_cons]
          refine ⟨rfl, ?_⟩
          rw [update_self]
          exact hrest.chain.update_of_notMem hx
        · intro b' hb'
          simp only [without, if_true, cons_append, nil_append, mem_cons] at hb'
          rcases hb' with rfl | hb'
          · exact hxs
          · exact hrest.stack b' hb'
      · rw [update_eq_self]
  · have hmem : e ∈ below := (mem_cons.mp he).resolve_left htop
    obtain ⟨above, below', rfl, habove⟩ := eq_append_cons_of_mem hmem
    -- the event right above it, possibly the top
    obtain ⟨us, curr, hus⟩ : ∃ us curr, top :: above = us ++ [curr] := by
      rcases eq_nil_or_concat (top :: above) with hnil | ⟨us, curr, hus⟩
      · cases hnil
      · exact ⟨us, curr, by rw [hus, concat_eq_append]⟩
    have hlast : (top :: above).getLast (cons_ne_nil _ _) = curr := by simp [hus]
    have hbin : (top :: (above ++ e :: below')).Nodup :=
      hnd.sublist (sublist_append_left _ _)
    have hlen : above.length < n := by
      have := hbin.length_le_card
      simp at this
      omega
    have hfind : q.findInBin e n top (q.nextInBin top) = some curr := by
      rw [findInBin_eq hstack habove hlen, hlast]
    have hlist : top :: (above ++ e :: below') = us ++ curr :: e :: below' := by
      rw [← cons_append, hus, append_assoc]; rfl
    have hlist' : us ++ curr :: below' = top :: (above ++ below') := by
      rw [← cons_append, hus, append_assoc]; rfl
    have hchain : Seg q.nextInBin (some top) (us ++ curr :: e :: below') none := by
      rw [← hlist]; exact ⟨rfl, hstack⟩
    have hun := hchain.unlink (hlist ▸ hbin)
    rw [hlist'] at hun
    have herase : (above ++ e :: below').erase e = above ++ below' := by
      rw [erase_append_right _ habove, erase_cons_head]
    have hcurr : curr ∈ top :: above := by rw [hus]; simp
    refine ⟨{ q with nextInBin := update q.nextInBin curr (q.nextInBin e) }, some top,
      by simp [removeItem, htop, hfind], ⟨?_, ?_⟩, curr, ?_, q.nextBin curr, q.nextInBin e, ?_⟩
    · simpa [without, htop] using h.chain
    · intro b' hb'
      simp only [without, if_neg htop, herase, cons_append, nil_append, mem_cons] at hb'
      rcases hb' with rfl | hb'
      · exact hun.2
      · -- the other bins do not see the update
        have hout : curr ∉ flat post := by
          intro hm
          have hnd' := nodup_append.mp hnd
          refine hnd'.2.2 curr ?_ curr hm rfl
          rcases mem_cons.mp hcurr with rfl | hm'
          · simp [Bin.all]
          · simp [Bin.all, hm']
        exact (hrest.update_of_notMem (v := q.nextBin curr) hout).stack b' hb'
    · rcases mem_cons.mp hcurr with rfl | hm'
      · simp [Bin.all]
      · simp [Bin.all, hm']
    · rw [update_eq_self]

/-- **`remove` takes the event out of its bin**, panics nowhere, and touches pointers only. -/
theorem remove_linked (h : q.Linked q.head (pre ++ b :: post) none)
    (hnd : (flat (pre ++ b :: post)).Nodup) (hpre : ∀ b' ∈ pre, q.key b'.1 < q.key e)
    (hkey : q.key b.1 = q.key e) (he : e ∈ b.all) (hqueue : (q.obj e).queue = some q.self) :
    ∃ q', q.remove e = some q' ∧ q'.Linked q'.head (pre ++ (without e b ++ post)) none ∧
      q'.obj = q.obj ∧ q'.curTick = q.curTick ∧ q'.self = q.self := by
  obtain ⟨mid, hLpre, hLpost⟩ := Linked.append_iff.mp h
  have hmid : mid = some b.1 := hLpost.chain.1
  subst hmid
  have hndpost : (flat (b :: post)).Nodup := by
    rw [flat_append] at hnd; exact (nodup_append.mp hnd).2.1
  obtain ⟨q₁, p, hitem, hLq₁, x, hx, v, w, hframe⟩ := removeItem_linked hLpost he hndpost
  have heq : (q.obj b.1).eq (q.obj e) := by rw [q.eq_iff]; exact hkey
  rcases eq_nil_or_concat pre with rfl | ⟨ps, b', hps⟩
  · -- an event on the head's bin
    have hhead : q.head = some b.1 := hLpre.chain
    refine ⟨{ q₁ with head := p }, ?_, ⟨hLq₁.chain, hLq₁.stack⟩, by rw [hframe]; simp⟩
    simp [remove, hhead, hqueue, heq, hitem]
  · rw [concat_eq_append] at hps
    subst hps
    obtain ⟨h₀, hhead, hlt, hseek⟩ := seek_from_head h hnd hpre (by simp [hkey])
    have hne : ¬ (q.obj h₀).eq (q.obj e) := by rw [q.eq_iff]; exact hlt.ne
    -- the bin that changed is none of those walked over
    have hout : x ∉ flat (ps ++ [b']) := by
      intro hm
      rw [flat_append] at hnd
      exact (nodup_append.mp hnd).2.2 x hm x (mem_append_left _ hx) rfl
    have hLpre' := hLpre.update_of_notMem (v := v) (w := w) hout
    have hnd' : (tops (ps ++ [b'] ++ (without e b ++ post))).Nodup := by
      refine List.Nodup.sublist tops_sublist_flat (hnd.sublist ?_)
      simp only [flat_append, flat_without, flat_cons]
      exact List.Sublist.append_left (List.Sublist.append_right erase_sublist _) _
    have hhang := Linked.hang (hframe ▸ hLpre') hLq₁ hnd'
    have hsame : q₁.head = q.head := by rw [hframe]
    rw [← hsame] at hhang
    refine ⟨_, ?_, hhang, by rw [hframe]; simp⟩
    simp [remove, hhead, hqueue, hne, hseek, heq, hitem]

/-! ## The two operations on a represented queue -/

namespace Keyed

variable {key key' : Fin n → Tick ×ₗ Int}

theorem congr (h : Keyed key bins) (hkey : ∀ e ∈ flat bins, key' e = key e) : Keyed key' bins where
  same := by
    intro b hb e he
    rw [hkey e (mem_flat.mpr ⟨b, hb, Or.inr he⟩), hkey b.1 (mem_flat.mpr ⟨b, hb, Or.inl rfl⟩)]
    exact h.same b hb e he
  sorted := by
    refine h.sorted.imp_of_mem ?_
    intro b b' hb hb' hlt
    rwa [hkey b.1 (mem_flat.mpr ⟨b, hb, Or.inl rfl⟩), hkey b'.1 (mem_flat.mpr ⟨b', hb', Or.inl rfl⟩)]

/-- All events of a bin have its key. -/
theorem key_eq (h : Keyed key bins) (hb : b ∈ bins) (he : e ∈ b.all) : key e = key b.1 := by
  rcases mem_cons.mp he with rfl | he
  · rfl
  · exact h.same b hb e he

/-- **The contents are sorted.** -/
theorem flat_sorted (h : Keyed key bins) : (flat bins).Pairwise fun a b => key a ≤ key b := by
  refine pairwise_flatMap.mpr ⟨?_, ?_⟩
  · intro b hb
    refine pairwise_of_forall_mem_list ?_
    intro x hx y hy
    rw [h.key_eq hb hx, h.key_eq hb hy]
  · refine h.sorted.imp_of_mem ?_
    intro b b' hb hb' hlt x hx y hy
    rw [h.key_eq hb hx, h.key_eq hb' hy]
    exact hlt.le

/-- An event in its place keeps the order. -/
theorem push (h : Keyed key (pre ++ post)) (hpre : ∀ b ∈ pre, key b.1 < key e)
    (hpost : ∀ b ∈ post.head?, ¬ key b.1 < key e) : Keyed key (pre ++ push key e post) := by
  obtain ⟨hsame, hsorted⟩ := h
  obtain ⟨hs₁, hs₂, hcross⟩ := pairwise_append.mp hsorted
  -- what `push` does to the bins behind: same keys inside, increasing tops, nothing below `key e`
  have hpush : (∀ b ∈ EventQueue.push key e post, ∀ x ∈ b.2, key x = key b.1) ∧
      (EventQueue.push key e post).Pairwise (fun b b' => key b.1 < key b'.1) ∧
      ∀ b ∈ EventQueue.push key e post, key e ≤ key b.1 := by
    cases post with
    | nil => simp [EventQueue.push]
    | cons c post =>
      have hc := hsame c (by simp)
      have hrest : ∀ b ∈ post, ∀ x ∈ b.2, key x = key b.1 := fun b hb => hsame b (by simp [hb])
      obtain ⟨hlow, htail⟩ := pairwise_cons.mp hs₂
      have hce : key e ≤ key c.1 := not_lt.mp (hpost c rfl)
      have habove : ∀ b ∈ post, key e < key b.1 := fun b hb => hce.trans_lt (hlow b hb)
      by_cases hlt : key e < key c.1
      · rw [EventQueue.push, if_pos hlt]
        simp only [mem_cons, forall_eq_or_imp, pairwise_cons]
        exact ⟨⟨by simp, hc, hrest⟩, ⟨⟨hlt, habove⟩, hlow, htail⟩, le_refl _, hce, fun b hb => (habove b hb).le⟩
      · have heq : key c.1 = key e := (le_antisymm hce (not_lt.mp hlt)).symm
        rw [EventQueue.push, if_neg hlt]
        simp only [mem_cons, forall_eq_or_imp, pairwise_cons]
        exact ⟨⟨⟨heq, fun x hx => (hc x hx).trans heq⟩, hrest⟩, ⟨habove, htail⟩, le_refl _,
          fun b hb => (habove b hb).le⟩
  refine ⟨forall_mem_append.mpr ⟨(forall_mem_append.mp hsame).1, hpush.1⟩, pairwise_append.mpr ⟨hs₁, hpush.2.1, ?_⟩⟩
  exact fun b hb b' hb' => (hpre b hb).trans_le (hpush.2.2 b' hb')

theorem without (h : Keyed key (pre ++ b :: post)) : Keyed key (pre ++ (without e b ++ post)) := by
  obtain ⟨hsame, hsorted⟩ := h
  obtain ⟨hs₁, hs₂, hcross⟩ := pairwise_append.mp hsorted
  obtain ⟨hlow, htail⟩ := pairwise_cons.mp hs₂
  have hb := hsame b (by simp)
  -- what is left of the bin has the bin's key throughout
  have hleft : (EventQueue.without e b).Pairwise (fun c c' => key c.1 < key c'.1) ∧
      ∀ c ∈ EventQueue.without e b, key c.1 = key b.1 ∧ ∀ x ∈ c.2, key x = key c.1 := by
    obtain ⟨top, below⟩ := b
    by_cases he : e = top
    · subst he
      cases below with
      | nil => simp [EventQueue.without]
      | cons x xs =>
        simp only [mem_cons, forall_eq_or_imp] at hb
        simp only [EventQueue.without, if_true, pairwise_singleton, mem_singleton, forall_eq, true_and]
        exact ⟨hb.1, fun y hy => (hb.2 y hy).trans hb.1.symm⟩
    · simp only [EventQueue.without, he, if_false, pairwise_singleton, mem_singleton, forall_eq, true_and]
      exact fun y hy => hb y (mem_of_mem_erase hy)
  refine ⟨fun c hc => ?_, pairwise_append.mpr ⟨hs₁, pairwise_append.mpr ⟨hleft.1, htail, ?_⟩, ?_⟩⟩
  · rcases mem_append.mp hc with hc | hc
    · exact hsame c (by simp [hc])
    · rcases mem_append.mp hc with hc | hc
      · exact (hleft.2 c hc).2
      · exact hsame c (by simp [hc])
  · intro c hc c' hc'
    rw [(hleft.2 c hc).1]
    exact hlow c' hc'
  · intro c hc c' hc'
    rcases mem_append.mp hc' with hc' | hc'
    · rw [(hleft.2 c' hc').1]
      exact hcross c hc b (by simp)
    · exact hcross c hc c' (by simp [hc'])

end Keyed

theorem orderedInsert_append {key : Fin n → Tick ×ₗ Int} {l l' : List (Fin n)}
    (hl : ∀ a ∈ l, key a < key e) (hl' : ∀ a ∈ l'.head?, key e ≤ key a) :
    (l ++ l').orderedInsert (fun a b => key a ≤ key b) e = l ++ e :: l' := by
  induction l with
  | nil =>
    cases l' with
    | nil => rfl
    | cons a l' => exact orderedInsert_cons_of_le _ _ (hl' a rfl)
  | cons a l ih =>
    have hnot : ¬ key e ≤ key a := not_le.mpr (hl a mem_cons_self)
    rw [cons_append, orderedInsert_cons, if_neg hnot, ih (forall_mem_cons.mp hl).2]
    rfl

/-- **`insert` on a represented queue**: it returns, and the event is inserted in front of the
    first event that is not before it. -/
theorem insert_rep (h : q.Rep bins) (he : e ∉ flat bins) : ∃ q' bins', q.insert e = some q' ∧ q'.Rep bins' ∧
      flat bins' = (flat bins).orderedInsert (fun a b => q.key a ≤ q.key b) e ∧
      q'.obj = q.obj ∧ q'.curTick = q.curTick ∧ q'.self = q.self := by
  obtain ⟨pre, post, rfl, hpre, hpost⟩ : ∃ pre post, bins = pre ++ post ∧
      (∀ b ∈ pre, q.key b.1 < q.key e) ∧ ∀ b ∈ post.head?, ¬ q.key b.1 < q.key e := by
    refine ⟨bins.takeWhile (fun b => q.key b.1 < q.key e),
      bins.dropWhile (fun b => q.key b.1 < q.key e), takeWhile_append_dropWhile.symm, ?_, ?_⟩
    · intro b hb
      simpa using mem_takeWhile_imp hb
    · intro b hb
      have := head?_dropWhile_not (fun b : Bin n => decide (q.key b.1 < q.key e)) bins
      rw [Option.mem_def.mp hb] at this
      simpa using this
  obtain ⟨q', hins, hlinked, hobj, htick, hself⟩ := insert_linked h.linked h.nodup hpre hpost he
  have hkey : q'.key = q.key := by funext x; simp only [key, hobj]
  have hflat : flat (pre ++ push q.key e post) = flat pre ++ e :: flat post := by
    rw [flat_append, flat_push]
  refine ⟨q', _, hins, ⟨hlinked, ?_, ?_⟩, ?_, hobj, htick, hself⟩
  · rw [hkey]
    exact h.keyed.push hpre hpost
  · rw [hflat, nodup_middle, ← flat_append]
    exact nodup_cons.mpr ⟨he, h.nodup⟩
  · rw [hflat, flat_append, orderedInsert_append]
    · intro a ha
      obtain ⟨b, hb, hab⟩ := mem_flat.mp ha
      rw [h.keyed.key_eq (mem_append_left _ hb) (mem_cons.mpr hab)]
      exact hpre b hb
    · intro a ha
      cases post with
      | nil => cases ha
      | cons b post =>
        cases ha
        exact not_lt.mp (hpost b rfl)

/-- **`remove` on a represented queue**: it returns for every event in the queue, and takes out
    that event. -/
theorem remove_rep (h : q.Rep bins) (he : e ∈ flat bins) (hqueue : (q.obj e).queue = some q.self) :
    ∃ q' bins', q.remove e = some q' ∧ q'.Rep bins' ∧ flat bins' = (flat bins).erase e ∧
      q'.obj = q.obj ∧ q'.curTick = q.curTick ∧ q'.self = q.self := by
  obtain ⟨b, hb, heb⟩ := mem_flat.mp he
  have heb' : e ∈ b.all := mem_cons.mpr heb
  obtain ⟨pre, post, rfl⟩ := append_of_mem hb
  have hkey : q.key b.1 = q.key e := (h.keyed.key_eq hb heb').symm
  have hpre : ∀ b' ∈ pre, q.key b'.1 < q.key e := by
    intro b' hb'
    rw [← hkey]
    exact (pairwise_append.mp h.keyed.sorted).2.2 b' hb' b mem_cons_self
  obtain ⟨q', hrem, hlinked, hobj, htick, hself⟩ :=
    remove_linked h.linked h.nodup hpre hkey heb' hqueue
  have hkey' : q'.key = q.key := by funext x; simp only [key, hobj]
  have hflat : flat (pre ++ (without e b ++ post)) = (flat (pre ++ b :: post)).erase e := by
    have hout : e ∉ flat pre := by
      intro hm
      have hnd := h.nodup
      rw [flat_append] at hnd
      exact (nodup_append.mp hnd).2.2 e hm e (mem_append_left _ heb') rfl
    rw [flat_append, flat_append, flat_append, flat_cons, flat_without,
      erase_append_right _ hout, erase_append_left _ (mem_cons.mpr heb)]
  refine ⟨q', _, hrem, ⟨hlinked, ?_, ?_⟩, hflat, hobj, htick, hself⟩
  · rw [hkey']
    exact h.keyed.without
  · rw [hflat]
    exact h.nodup.erase e

/-- **What a reader sees** is the represented list. -/
theorem contents_eq (h : q.Rep bins) : q.contents = flat bins := by
  have hwalk : ∀ {next : Fin n → Option (Fin n)} {xs : List (Fin n)} {p : Option (Fin n)}
      {turns : Nat}, Seg next p xs none → xs.length ≤ turns → walk next turns p = xs := by
    intro next xs
    induction xs with
    | nil => intro p turns hs _; cases (hs : p = none); cases turns <;> rfl
    | cons x xs ih =>
      intro p turns hs hle
      obtain ⟨turns, rfl⟩ : ∃ m, turns = m + 1 := ⟨turns - 1, by simp at hle; omega⟩
      obtain ⟨rfl, hrest⟩ := hs
      rw [walk, ih hrest (by simpa using hle)]
  have hlen := (h.nodup.sublist tops_sublist_flat).length_le_card
  rw [Fintype.card_fin] at hlen
  rw [contents, hwalk h.linked.chain hlen, tops, flatMap_map]
  refine flatMap_congr fun (b : Bin n) hb => ?_
  have hbin : b.all.Nodup := (nodup_flatMap.mp h.nodup).1 b hb
  have hlen' := hbin.length_le_card
  rw [Fintype.card_fin, Bin.all, length_cons] at hlen'
  rw [hwalk (h.linked.stack b hb) (by omega)]
  rfl

end EventQueue
end NvpSim.Sim
