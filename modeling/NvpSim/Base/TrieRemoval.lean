/-
  Removal from the trie, and the trie over a whole run.

  `remove` works from a node upwards, so a trie is seen as a node in a list of frames.  Nothing that continues
  the prefix of a node is held by its context (`not_holdsCtx`), so giving up the node's value takes exactly one
  entry out.
-/
import Mathlib.Data.List.Nodup
import NvpSim.Base.TrieLookup

namespace NvpSim.Base

open NvpSim.Lib List

namespace Trie

variable {n : Nat} {V : Type} {t t' c c' kid : Trie n V} {f : Frame n V} {fs : List (Frame n V)}
  {h h' p : Handle n} {v v' : V}

/-- The handle of a parent. -/
def Frame.handle (f : Frame n V) : Handle n := (f.key, f.mask)

/-- What is held outside of a position. -/
def HoldsCtx : List (Frame n V) → Handle n → V → Prop
  | [], _, _ => False
  | f :: fs, h, v => (h = f.handle ∧ f.value = some v) ∨ f.sibling.Holds h v ∨ HoldsCtx fs h v

/-! ## Positions -/

theorem parent_root (f : Frame n V) (c : Trie n V) : (f.parent c).isNode = true ∧ (f.parent c).handle = f.handle := by
  unfold Frame.parent
  split <;> exact ⟨rfl, rfl⟩

theorem holds_parent : (f.parent c).Holds h v ↔
    c.Holds h v ∨ (h = f.handle ∧ f.value = some v) ∨ f.sibling.Holds h v := by
  unfold Frame.parent
  split
  · show (_ ∨ _ ∨ _) ↔ _
    rw [or_comm (a := f.sibling.Holds h v), or_left_comm]
    rfl
  · show (_ ∨ _ ∨ _) ↔ _
    rw [or_left_comm]
    rfl

theorem holds_plug : (plug c fs).Holds h v ↔ c.Holds h v ∨ HoldsCtx fs h v := by
  induction fs generalizing c with
  | nil => exact (or_iff_left not_false).symm
  | cons f fs ih =>
    show (plug (f.parent c) fs).Holds h v ↔ c.Holds h v ∨ _ ∨ _ ∨ _
    rw [ih, holds_parent, or_assoc, or_assoc]

/-- What a parent asks of its kids, whichever of them we are. -/
structure Frame.Fits (f : Frame n V) (c : Trie n V) : Prop where
  pre : IsPrefix f.handle
  below : Below f.handle c
  belowSibling : Below f.handle f.sibling
  wfSibling : f.sibling.Wf
  /-- The lone kid is the first. -/
  first : if f.second then c.isNode = true → f.sibling.isNode = true
    else f.sibling.isNode = true → c.isNode = true
  apart : c.isNode = true → f.sibling.isNode = true → c.key.getMsbD f.handle.len ≠ f.sibling.key.getMsbD f.handle.len

theorem wf_parent : (f.parent c).Wf ↔ c.Wf ∧ f.Fits c := by
  unfold Frame.parent
  cases hf : f.second with
  | true =>
    constructor
    · rintro ⟨hp, hbs, hbc, hapart, hws, hwc⟩
      refine ⟨hwc, hp, hbc, hbs, hws, ?_, fun hc _ => (hapart hc).2.symm⟩
      rw [hf]
      exact fun hc => (hapart hc).1
    · rintro ⟨hwc, hp, hbc, hbs, hws, hfirst, hapart⟩
      rw [hf] at hfirst
      exact ⟨hp, hbs, hbc, fun hc => ⟨hfirst hc, (hapart hc (hfirst hc)).symm⟩, hws, hwc⟩
  | false =>
    constructor
    · rintro ⟨hp, hbc, hbs, hapart, hwc, hws⟩
      refine ⟨hwc, hp, hbc, hbs, hws, ?_, fun _ hs => (hapart hs).2⟩
      rw [hf]
      exact fun hs => (hapart hs).1
    · rintro ⟨hwc, hp, hbc, hbs, hws, hfirst, hapart⟩
      rw [hf] at hfirst
      exact ⟨hp, hbc, hbs, fun hs => ⟨hfirst hs, hapart (hfirst hs) hs⟩, hwc, hws⟩

theorem wf_of_plug (fs : List (Frame n V)) (hwf : (plug c fs).Wf) : c.Wf := by
  induction fs generalizing c with
  | nil => exact hwf
  | cons f fs ih => exact (wf_parent.mp (ih hwf)).1

theorem wf_plug_of_sameRoot (hwf : (plug c fs).Wf) (hsame : SameRoot c c') (hc' : c'.Wf) : (plug c' fs).Wf := by
  induction fs generalizing c c' with
  | nil => exact hc'
  | cons f fs ih =>
    obtain ⟨-, hp, hbc, hbs, hws, hfirst, hapart⟩ := wf_parent.mp (wf_of_plug fs hwf)
    have hkey : c'.key = c.key := congrArg Prod.fst hsame.2
    refine ih hwf ⟨?_, ?_⟩ (wf_parent.mpr ⟨hc', hp, ?_, hbs, hws, ?_, ?_⟩)
    · rw [(parent_root f c).1, (parent_root f c').1]
    · rw [(parent_root f c).2, (parent_root f c').2]
    · unfold Below
      rw [hsame.1, hsame.2, hkey]
      exact hbc
    · rw [hsame.1]
      exact hfirst
    · rw [hsame.1, hkey]
      exact hapart

theorem sameRoot_plug (fs : List (Frame n V)) (hsame : SameRoot c c') : SameRoot (plug c fs) (plug c' fs) := by
  induction fs generalizing c c' with
  | nil => exact hsame
  | cons f fs ih =>
    refine ih ⟨?_, ?_⟩
    · rw [(parent_root f c).1, (parent_root f c').1]
    · rw [(parent_root f c).2, (parent_root f c').2]

/-- **Nothing below a node is held by its context.** -/
theorem not_holdsCtx (hwf : (plug c fs).Wf) (hnode : c.isNode = true)
    (hext : Extends c.handle h) : ¬ HoldsCtx fs h v := by
  induction fs generalizing c with
  | nil => exact not_false
  | cons f fs ih =>
    have hfits := (wf_parent.mp (wf_of_plug fs hwf)).2
    obtain ⟨hlen, -⟩ := hfits.below hnode
    rintro (⟨rfl, -⟩ | hs | hctx)
    · exact absurd hext.1 (Nat.not_le_of_lt hlen)
    · -- the sibling parts from the node in the first bit after the parent's
      obtain ⟨hsnode, -, hsext⟩ := hfits.wfSibling.holds_extends hs
      refine hfits.apart hnode hsnode ?_
      have h1 : c.key.getMsbD f.handle.len = h.1.getMsbD f.handle.len := hext.2 _ hlen
      have h2 : f.sibling.key.getMsbD f.handle.len = h.1.getMsbD f.handle.len :=
        hsext.2 _ (hfits.belowSibling hsnode).1
      rw [h1, h2]
    · refine ih hwf (parent_root f c).1 ?_ hctx
      rw [(parent_root f c).2]
      exact (hfits.below.extends hnode).trans hext

theorem locate_spec (t : Trie n V) (fs : List (Frame n V)) :
    (∀ c fs', locate h t fs = some (c, fs') → plug c fs' = plug t fs ∧ c.isNode = true ∧ c.handle = h) ∧
    (t.Holds h v → (locate h t fs).isSome = true) := by
  induction t generalizing fs with
  | null => exact ⟨nofun, nofun⟩
  | node key mask value kid0 kid1 ih0 ih1 =>
    unfold locate
    by_cases hroot : (key, mask) = h
    · rw [if_pos hroot]
      refine ⟨fun c fs' hl => ?_, fun _ => rfl⟩
      cases hl
      exact ⟨rfl, rfl, hroot⟩
    · rw [if_neg hroot]
      obtain ⟨hsound0, hcomplete0⟩ := ih0 (⟨key, mask, value, false, kid1⟩ :: fs)
      obtain ⟨hsound1, hcomplete1⟩ := ih1 (⟨key, mask, value, true, kid0⟩ :: fs)
      refine ⟨fun c fs' hl => ?_, fun hh => ?_⟩
      · rcases Option.or_eq_some_iff.mp hl with hl | ⟨-, hl⟩
        · exact hsound0 c fs' hl
        · exact hsound1 c fs' hl
      · rw [Option.isSome_or, Bool.or_eq_true]
        rcases hh with ⟨hh, -⟩ | hh | hh
        · exact absurd hh.symm hroot
        · exact Or.inl (hcomplete0 hh)
        · exact Or.inr (hcomplete1 hh)

/-! ## Splicing a node out -/

theorem replace_spec (hfits : f.Fits c) (hnode : c.isNode = true) (hwf : kid.Wf)
    (hkid : kid.isNode = true → Extends c.handle kid.handle) :
    (f.replace kid).Wf ∧ (f.replace kid).isNode = true ∧ (f.replace kid).handle = f.handle ∧
      (f.replace kid).value = f.value ∧ ∀ h v, (f.replace kid).Holds h v ↔
        kid.Holds h v ∨ (h = f.handle ∧ f.value = some v) ∨ f.sibling.Holds h v := by
  obtain ⟨hlen, hagree⟩ := hfits.below hnode
  have hbelow : Below f.handle kid := fun hk =>
    ⟨Nat.lt_of_lt_of_le hlen (hkid hk).1, hagree.trans ((hkid hk).2.mono (Nat.le_of_lt hlen))⟩
  have hbit : kid.isNode = true →
      kid.key.getMsbD f.handle.len = c.key.getMsbD f.handle.len := fun hk => ((hkid hk).2 _ hlen).symm
  have hapart : kid.isNode = true → f.sibling.isNode = true →
      kid.key.getMsbD f.handle.len ≠ f.sibling.key.getMsbD f.handle.len := by
    intro hk hs
    rw [hbit hk]
    exact hfits.apart hnode hs
  unfold Frame.replace
  cases hf : f.second with
  | true =>
    -- we are the second kid, so there is a first
    have hs : f.sibling.isNode = true := by
      have hfirst := hfits.first
      rw [hf] at hfirst
      exact hfirst hnode
    simp only [if_true, hs, Bool.not_true, Bool.and_false, Bool.false_eq_true, if_false]
    refine ⟨⟨hfits.pre, hfits.belowSibling, hbelow, fun hk => ⟨hs, (hapart hk hs).symm⟩,
      hfits.wfSibling, hwf⟩, rfl, rfl, rfl, fun h v => ?_⟩
    show _ ∨ f.sibling.Holds h v ∨ kid.Holds h v ↔ _
    rw [or_comm (a := f.sibling.Holds h v), or_left_comm]
    rfl
  | false =>
    simp only [Bool.false_eq_true, if_false]
    by_cases hlone : (f.sibling.isNode && !kid.isNode) = true
    · rw [if_pos hlone]
      simp only [Bool.and_eq_true, Bool.not_eq_true'] at hlone
      refine ⟨⟨hfits.pre, hfits.belowSibling, nofun, nofun,
        hfits.wfSibling, trivial⟩, rfl, rfl, rfl, fun h v => ?_⟩
      have hnone : ¬ kid.Holds h v := fun hh =>
        absurd ((hwf.holds_extends hh).1.symm.trans hlone.2) (by decide)
      show _ ∨ f.sibling.Holds h v ∨ False ↔ _
      rw [or_false, or_iff_right hnone]
      rfl
    · rw [if_neg hlone]
      have hk : f.sibling.isNode = true → kid.isNode = true := by
        intro hs
        rw [hs] at hlone
        simpa using hlone
      refine ⟨⟨hfits.pre, hbelow, hfits.belowSibling, fun hs => ⟨hk hs, hapart (hk hs) hs⟩, hwf,
        hfits.wfSibling⟩, rfl, rfl, rfl, fun h v => ?_⟩
      show _ ∨ kid.Holds h v ∨ f.sibling.Holds h v ↔ _
      rw [or_left_comm]
      rfl

theorem firstKid_spec (hwf : t.Wf) (hnode : t.isNode = true) (hfull : t.full = false) (hvalue : t.value = none) :
    t.firstKid.Wf ∧ (t.firstKid.isNode = true → Extends t.handle t.firstKid.handle) ∧
      ∀ h v, t.firstKid.Holds h v ↔ t.Holds h v := by
  cases t with
  | null => cases hnode
  | node key mask value kid0 kid1 =>
    obtain ⟨-, hb0, -, -, hwf0, hwf1⟩ := hwf
    refine ⟨hwf0, hb0.extends, fun h v => ⟨fun hh => Or.inr (Or.inl hh), ?_⟩⟩
    rintro (⟨-, hh⟩ | hh | hh)
    · exact absurd (hvalue.symm.trans hh) (by simp)
    · exact hh
    · exact absurd ((hwf1.holds_extends hh).1.symm.trans hfull) (by decide)

/-- **Splicing a node out leaves what its kid and its context hold.** -/
theorem splice_spec (hwf : (plug c fs).Wf) (hnode : c.isNode = true) (hkid : kid.Wf)
    (hext : kid.isNode = true → Extends c.handle kid.handle) (hfs : fs ≠ []) :
    ∃ t', splice kid fs = some t' ∧ t'.Wf ∧ SameRoot (plug c fs) t' ∧
      ∀ h v, t'.Holds h v ↔ kid.Holds h v ∨ HoldsCtx fs h v := by
  induction fs generalizing c kid with
  | nil => exact absurd rfl hfs
  | cons f fs ih =>
    have hfits := (wf_parent.mp (wf_of_plug fs hwf)).2
    obtain ⟨hwf', hnode', hhandle, hvalue', hholds⟩ := replace_spec hfits hnode hkid hext
    have hsame : SameRoot (f.parent c) (f.replace kid) := by
      refine ⟨?_, ?_⟩
      · rw [hnode', (parent_root f c).1]
      · rw [hhandle, (parent_root f c).2]
    have hplug : (plug (f.replace kid) fs).Wf := wf_plug_of_sameRoot (c := f.parent c) hwf hsame hwf'
    rw [splice]
    by_cases hgo : (!(f.replace kid).full && f.value.isNone && !fs.isEmpty) = true
    · -- the parent goes too
      rw [if_pos hgo]
      simp only [Bool.and_eq_true, Bool.not_eq_true', Option.isNone_iff_eq_none] at hgo
      obtain ⟨⟨hfull, hvalue⟩, hne⟩ := hgo
      obtain ⟨hfwf, hfext, hfholds⟩ := firstKid_spec hwf' hnode' hfull (hvalue'.trans hvalue)
      obtain ⟨t', hsplice, hwft, hroot, hheld⟩ := ih hplug hnode' hfwf hfext (by simpa using hne)
      refine ⟨t', hsplice, hwft, ?_, fun h v => ?_⟩
      · have hsame' := sameRoot_plug fs hsame
        exact ⟨hroot.1.trans hsame'.1, hroot.2.trans hsame'.2⟩
      · rw [hheld, hfholds, hholds, or_assoc, or_assoc]
        rfl
    · rw [if_neg hgo]
      refine ⟨_, rfl, hplug, sameRoot_plug _ hsame, fun h v => ?_⟩
      rw [holds_plug, hholds, or_assoc, or_assoc]
      rfl

/-- **Removal takes exactly one entry out of the trie.** -/
theorem remove_spec (hwf : t.Wf) (hheld : t.Holds h v) (hroot : h ≠ t.handle) :
    ∃ t', t.remove h = some t' ∧ t'.Wf ∧ SameRoot t t' ∧ ∀ h' v', t'.Holds h' v' ↔ t.Holds h' v' ∧ h' ≠ h := by
  obtain ⟨hsound, hcomplete⟩ := locate_spec (h := h) (v := v) t []
  obtain ⟨⟨c, fs⟩, hlocate⟩ := Option.isSome_iff_exists.mp (hcomplete hheld)
  obtain ⟨hplug, hnode, hhandle⟩ := hsound c fs hlocate
  -- the whole trie is the located node in its context
  have hplug' : plug c fs = t := hplug
  have hcwf : (plug c fs).Wf := by rw [hplug']; exact hwf
  have hctx : ∀ v', ¬ HoldsCtx fs h v' := fun v' =>
    not_holdsCtx hcwf hnode (hhandle ▸ ⟨Nat.le_refl _, Agree.refl _ _⟩)
  have hheldAll : ∀ h' v', t.Holds h' v' ↔ c.Holds h' v' ∨ HoldsCtx fs h' v' := by
    intro h' v'
    rw [← hplug', holds_plug]
  have hctxNe : ∀ h' v', HoldsCtx fs h' v' → h' ≠ h := by
    rintro h' v' hh rfl
    exact hctx v' hh
  unfold remove
  rw [hlocate, Option.bind_some]
  cases c with
  | null => cases hnode
  | node key mask value kid0 kid1 =>
    have hwfc := wf_of_plug _ hcwf
    obtain ⟨hp, hb0, hb1, hapart, hwf0, hwf1⟩ := hwfc
    have hkids : ∀ h' v', kid0.Holds h' v' ∨ kid1.Holds h' v' → h' ≠ h := by
      rintro h' v' hh rfl
      have hlen : Handle.len (key, mask) = h'.len := congrArg Handle.len hhandle
      rcases hh with hh | hh
      · exact absurd hlen (Nat.ne_of_lt (hb0.len_lt hwf0 hh))
      · exact absurd hlen (Nat.ne_of_lt (hb1.len_lt hwf1 hh))
    have hvalue : value = some v := by
      rcases (hheldAll h v).mp hheld with (⟨-, hval⟩ | hh) | hh
      · exact hval
      · exact absurd rfl (hkids h v hh)
      · exact absurd hh (hctx v)
    -- what is held, apart from the node's own value
    have hrest : ∀ h' v', t.Holds h' v' ∧ h' ≠ h ↔ (kid0.Holds h' v' ∨ kid1.Holds h' v') ∨ HoldsCtx fs h' v' := by
      intro h' v'
      rw [hheldAll]
      constructor
      · rintro ⟨(⟨hh, -⟩ | hh) | hh, hne⟩
        · exact absurd (hh.trans hhandle) hne
        · exact Or.inl hh
        · exact Or.inr hh
      · rintro (hh | hh)
        · exact ⟨Or.inl (Or.inr hh), hkids h' v' hh⟩
        · exact ⟨Or.inr hh, hctxNe h' v' hh⟩
    by_cases hk1 : kid1.isNode = true
    · -- with two kids the node stays, without its value
      simp only [hk1, if_true, hvalue, Option.isSome_some]
      have hsame : SameRoot (node key mask value kid0 kid1) (node key mask none kid0 kid1) :=
        ⟨rfl, rfl⟩
      refine ⟨_, rfl, wf_plug_of_sameRoot hcwf hsame ⟨hp, hb0, hb1, hapart, hwf0, hwf1⟩, ?_, ?_⟩
      · rw [← hplug']
        exact sameRoot_plug _ hsame
      · intro h' v'
        rw [hrest, holds_plug]
        show ((h' = _ ∧ none = some v') ∨ _) ∨ _ ↔ _
        simp only [reduceCtorEq, and_false, false_or]
    · simp only [hk1, Bool.false_eq_true, if_false]
      have hfs : fs ≠ [] := by
        rintro rfl
        exact hroot (by rw [← hplug']; exact hhandle.symm)
      obtain ⟨t', hsplice, hwft, hsame, hholds⟩ := splice_spec hcwf rfl hwf0 hb0.extends hfs
      refine ⟨t', hsplice, hwft, hplug' ▸ hsame, fun h' v' => ?_⟩
      have hnone : ¬ kid1.Holds h' v' := fun hh => hk1 (hwf1.holds_extends hh).1
      rw [hholds, hrest, or_iff_left hnone]

/-! ## A run of insertions and removals -/

/-- A stored prefix: the first `width` bits of `key`. -/
structure Entry (n : Nat) (V : Type) where
  key : BitVec n
  width : Nat
  val : V

/-- The handle that `insert` returns for an entry. -/
def Entry.handle (e : Entry n V) : Handle n := (e.key &&& widthMask n e.width, widthMask n e.width)

/-- A word matches a stored prefix. -/
def Entry.Matches (e : Entry n V) (test : BitVec n) : Prop := Agree e.width test e.key

/-- A trie, and what is stored in it. -/
structure Store (n : Nat) (V : Type) where
  trie : Trie n V
  live : List (Entry n V)

/-- A call. -/
inductive Call (n : Nat) (V : Type) where
  | insert (e : Entry n V)
  | remove (h : Handle n)

namespace Store

def start : Store n V := ⟨Trie.empty, []⟩

def step (s : Store n V) : Call n V → Option (Store n V)
  | .insert e => (s.trie.insert e.key e.width e.val).map fun t => ⟨t, e :: s.live⟩
  | .remove h => (s.trie.remove h).map fun t => ⟨t, s.live.filter fun e => e.handle ≠ h⟩

/-- Insertions of prefixes that are not stored, and removals of live handles. -/
def Legal (s : Store n V) : Call n V → Prop
  | .insert e => 1 ≤ e.width ∧ e.width ≤ n ∧ ∀ e' ∈ s.live, e'.handle ≠ e.handle
  | .remove h => ∃ e ∈ s.live, e.handle = h

instance (s : Store n V) : (c : Call n V) → Decidable (Legal s c)
  | .insert _ => inferInstanceAs (Decidable (_ ∧ _ ∧ _))
  | .remove _ => inferInstanceAs (Decidable (∃ _ ∈ _, _))

/-- The trie holds what is stored. -/
structure Inv (s : Store n V) : Prop where
  wf : s.trie.Wf
  root : s.trie.isNode = true ∧ s.trie.handle = (0, 0)
  holds : ∀ h v, s.trie.Holds h v ↔ ∃ e ∈ s.live, e.handle = h ∧ e.val = v
  widths : ∀ e ∈ s.live, 1 ≤ e.width ∧ e.width ≤ n
  distinct : (s.live.map Entry.handle).Nodup

end Store

variable {e e' : Entry n V} {s s' : Store n V}

theorem widthMask_eq {w : Nat} (hw : w ≤ n) : widthMask n w = leadMask n w := by
  unfold widthMask leadMask
  split
  · rfl
  · rw [Nat.sub_eq_zero_of_le (by omega), BitVec.shiftLeft_zero]

theorem Entry.isPrefix (e : Entry n V) (hw : e.width ≤ n) :
    IsPrefix e.handle ∧ e.handle.len = e.width ∧ Agree e.width e.handle.1 e.key := by
  unfold Entry.handle
  rw [widthMask_eq hw]
  exact isPrefix_cut hw e.key

/-- **Two entries have one handle if and only if they are the same prefix.** -/
theorem Entry.handle_eq_iff (hw : e.width ≤ n) (hw' : e'.width ≤ n) :
    e.handle = e'.handle ↔ e.width = e'.width ∧ Agree e.width e.key e'.key := by
  obtain ⟨hp, hlen, hagree⟩ := e.isPrefix hw
  obtain ⟨hp', hlen', hagree'⟩ := e'.isPrefix hw'
  constructor
  · intro heq
    have hwidth : e.width = e'.width := by rw [← hlen, ← hlen', heq]
    refine ⟨hwidth, hagree.symm.trans ?_⟩
    rw [heq, hwidth]
    exact hagree'
  · rintro ⟨hwidth, hkeys⟩
    refine hp.ext hp' (by rw [hlen, hlen', hwidth]) ?_
    rw [hlen]
    refine (hagree.trans hkeys).trans ?_
    rw [hwidth]
    exact hagree'.symm

theorem len_root : Handle.len ((0, 0) : Handle n) = 0 := by
  show leadLen (0 : BitVec n) = 0
  rw [← leadMask_zero, leadLen_leadMask (Nat.zero_le n)]

theorem Store.inv_start : (start : Store n V).Inv where
  wf := by
    refine ⟨⟨?_, ?_, BitVec.and_zero⟩, nofun, nofun,
      nofun, trivial, trivial⟩
    · rw [len_root]
      exact Nat.zero_le n
    · rw [len_root, leadMask_zero]
  root := ⟨rfl, rfl⟩
  holds := by
    intro h v
    constructor
    · rintro (⟨-, hval⟩ | hh | hh)
      · cases hval
      · cases hh
      · cases hh
    · rintro ⟨e, he, -⟩
      cases he
  widths := nofun
  distinct := nodup_nil

/-- **Every legal insertion goes through and stores its entry.** -/
theorem Store.Inv.insert (hinv : s.Inv) (hw : 1 ≤ e.width ∧ e.width ≤ n)
    (hfresh : ∀ e' ∈ s.live, e'.handle ≠ e.handle) : ∃ s', s.step (.insert e) = some s' ∧ s'.Inv := by
  obtain ⟨hp, -, -⟩ := e.isPrefix hw.2
  have hext : Extends s.trie.handle e.handle := by
    rw [hinv.root.2]
    refine ⟨?_, ?_⟩
    · rw [len_root]
      exact Nat.zero_le _
    · rw [len_root]
      exact fun i hi => absurd hi (Nat.not_lt_zero i)
  have hfree : ∀ v, ¬ s.trie.Holds e.handle v := by
    intro v hh
    obtain ⟨e', he', heq, -⟩ := (hinv.holds _ _).mp hh
    exact hfresh e' he' heq
  obtain ⟨t', hins, hwf, hsame, hholds⟩ := insertMasked_spec e.val hinv.wf hinv.root.1 hp hext hfree
  refine ⟨⟨t', e :: s.live⟩, ?_, ⟨hwf, ?_, fun h v => ?_, ?_, ?_⟩⟩
  · show (insertMasked e.handle.1 e.handle.2 e.val s.trie).map _ = _
    rw [hins]
    rfl
  · exact ⟨hsame.1.trans hinv.root.1, hsame.2.trans hinv.root.2⟩
  · rw [hholds, hinv.holds]
    constructor
    · rintro (⟨e', he', heq⟩ | ⟨rfl, rfl⟩)
      · exact ⟨e', mem_cons_of_mem _ he', heq⟩
      · exact ⟨e, mem_cons_self, rfl, rfl⟩
    · rintro ⟨e', he', rfl, rfl⟩
      rcases mem_cons.mp he' with rfl | he'
      · exact Or.inr ⟨rfl, rfl⟩
      · exact Or.inl ⟨e', he', rfl, rfl⟩
  · exact forall_mem_cons.mpr ⟨hw, hinv.widths⟩
  · refine nodup_cons.mpr ⟨fun hmem => ?_, hinv.distinct⟩
    obtain ⟨e', he', heq⟩ := mem_map.mp hmem
    exact hfresh e' he' heq

/-- **Every removal of a live handle goes through and takes its entry out.** -/
theorem Store.Inv.remove (hinv : s.Inv) (he : e ∈ s.live) : ∃ s', s.step (.remove e.handle) = some s' ∧ s'.Inv := by
  have hheld : s.trie.Holds e.handle e.val := (hinv.holds _ _).mpr ⟨e, he, rfl, rfl⟩
  have hroot : e.handle ≠ s.trie.handle := by
    intro heq
    obtain ⟨hlow, hhigh⟩ := hinv.widths e he
    have hlen := (e.isPrefix hhigh).2.1
    rw [heq, hinv.root.2, len_root] at hlen
    omega
  obtain ⟨t', hrem, hwf, hsame, hholds⟩ := remove_spec hinv.wf hheld hroot
  refine ⟨⟨t', s.live.filter fun e' => e'.handle ≠ e.handle⟩, ?_, ⟨hwf, ?_, fun h v => ?_, ?_, ?_⟩⟩
  · rw [step, hrem]
    rfl
  · exact ⟨hsame.1.trans hinv.root.1, hsame.2.trans hinv.root.2⟩
  · rw [hholds, hinv.holds]
    constructor
    · rintro ⟨⟨e', he', rfl, rfl⟩, hne⟩
      exact ⟨e', mem_filter.mpr ⟨he', by simpa using hne⟩, rfl, rfl⟩
    · rintro ⟨e', he', rfl, rfl⟩
      obtain ⟨hmem, hne⟩ := mem_filter.mp he'
      exact ⟨⟨e', hmem, rfl, rfl⟩, by simpa using hne⟩
  · exact fun e' he' => hinv.widths e' (mem_filter.mp he').1
  · exact hinv.distinct.sublist (filter_sublist.map _)

theorem Store.Inv.step {c : Call n V} (hinv : s.Inv) (hc : Legal s c) : ∃ s', s.step c = some s' ∧ s'.Inv := by
  cases c with
  | insert e => exact hinv.insert ⟨hc.1, hc.2.1⟩ hc.2.2
  | remove h =>
    obtain ⟨e, he, rfl⟩ := hc
    exact hinv.remove he

theorem Store.inv_of_run {cs : List (Call n V)}
    (hrun : Run (Guarded (stepOf Store.step) Legal) start cs s) : s.Inv := by
  refine hrun.inv (P := Inv) (fun s c s' hinv hs => ?_) inv_start
  obtain ⟨s'', hs'', hinv'⟩ := hinv.step hs.2
  cases hs''.symm.trans hs.1
  exact hinv'

/-- **The trie finds the shortest stored prefix.**  After every sequence of legal calls a lookup
    returns `v` if and only if `v` belongs to a stored prefix that matches the word and is no longer
    than any other that does; it returns nothing if and only if no stored prefix matches; and every
    further legal call goes through, without a panic or a failed assertion. -/
theorem lookup_shortest_prefix {cs : List (Call n V)}
    (hrun : Run (Guarded (stepOf Store.step) Store.Legal) Store.start cs s) :
    (∀ test v, s.trie.lookup test = some v ↔ ∃ e ∈ s.live, e.val = v ∧ e.Matches test ∧
      ∀ e' ∈ s.live, e'.Matches test → e.width ≤ e'.width) ∧
    (∀ test, s.trie.lookup test = none ↔ ∀ e ∈ s.live, ¬ e.Matches test) ∧
    ∀ c, s.Legal c → ∃ s', s.step c = some s' := by
  have hinv := Store.inv_of_run hrun
  -- matching a stored entry is agreeing with its handle
  have hmatch : ∀ e ∈ s.live, ∀ test : BitVec n, e.Matches test ↔ Agree e.handle.len test e.handle.1 := by
    intro e he test
    obtain ⟨-, hlen, hagree⟩ := e.isPrefix (hinv.widths e he).2
    rw [hlen]
    exact ⟨fun h => h.trans hagree.symm, fun h => h.trans hagree⟩
  have hlen : ∀ e ∈ s.live, e.handle.len = e.width := fun e he =>
    (e.isPrefix (hinv.widths e he).2).2.1
  have hroot : ∀ test, Agree s.trie.handle.len test s.trie.key := by
    intro test i hi
    rw [hinv.root.2, len_root] at hi
    exact absurd hi (Nat.not_lt_zero i)
  have hsome : ∀ test h v, s.trie.lookupHandle test = some (h, v) →
      ∃ e ∈ s.live, e.handle = h ∧ e.val = v ∧ e.Matches test ∧
        ∀ e' ∈ s.live, e'.Matches test → e.width ≤ e'.width := by
    intro test h v hl
    obtain ⟨hholds, hagree, hleast⟩ := (hinv.wf.lookupHandle_spec (hroot test)).1 h v hl
    obtain ⟨e, he, rfl, rfl⟩ := (hinv.holds _ _).mp hholds
    refine ⟨e, he, rfl, rfl, (hmatch e he test).mpr hagree, fun e' he' hm' => ?_⟩
    rw [← hlen e he, ← hlen e' he']
    exact hleast _ _ ((hinv.holds _ _).mpr ⟨e', he', rfl, rfl⟩) ((hmatch e' he' test).mp hm')
  have hnone : ∀ test, s.trie.lookupHandle test = none → ∀ e ∈ s.live, ¬ e.Matches test := by
    intro test hl e he hm
    exact (hinv.wf.lookupHandle_spec (hroot test)).2 hl _ _
      ((hinv.holds _ _).mpr ⟨e, he, rfl, rfl⟩) ((hmatch e he test).mp hm)
  refine ⟨fun test v => ?_, fun test => ?_, fun c hc => ?_⟩
  · unfold lookup
    constructor
    · intro hl
      obtain ⟨⟨h, v'⟩, hfound, rfl⟩ := Option.map_eq_some_iff.mp hl
      obtain ⟨e, he, -, hrest⟩ := hsome test h v' hfound
      exact ⟨e, he, hrest⟩
    · rintro ⟨e, he, rfl, hm, hleast⟩
      cases hl : s.trie.lookupHandle test with
      | none => exact absurd hm (hnone test hl e he)
      | some r =>
        obtain ⟨e', he', -, hval, hm', hleast'⟩ := hsome test r.1 r.2 hl
        -- the two are prefixes of one width of one word
        have hwidth : e.width = e'.width :=
          Nat.le_antisymm (hleast e' he' hm') (hleast' e he hm)
        have hhandle : e.handle = e'.handle :=
          (Entry.handle_eq_iff (hinv.widths e he).2 (hinv.widths e' he').2).mpr ⟨hwidth, hm.symm.trans (hwidth ▸ hm')⟩
        rw [Option.map_some, inj_on_of_nodup_map hinv.distinct he he' hhandle, hval]
  · unfold lookup
    rw [Option.map_eq_none_iff]
    refine ⟨hnone test, fun hno => ?_⟩
    cases hl : s.trie.lookupHandle test with
    | none => rfl
    | some r =>
      obtain ⟨e, he, -, -, hm, -⟩ := hsome test r.1 r.2 hl
      exact absurd hm (hno e he)
  · obtain ⟨s', hs', -⟩ := hinv.step hc
    exact ⟨s', hs'⟩

/-- `lookup_shortest_prefix` at a run that splits an edge and takes a node out again. -/
theorem lookup_shortest_prefix_split : ∃ s : Store 8 Nat, exec (guardFn Store.step Store.Legal) Store.start
        [.insert ⟨0xA0, 8, 1⟩, .insert ⟨0xA8, 5, 2⟩, .insert ⟨0xA0, 3, 3⟩,
          .remove (Entry.handle ⟨0xA0, 3, 3⟩)] = some s ∧ s.trie.lookup 0xAF = some 2 ∧ s.trie.lookup 0xA1 = none ∧
      ∀ c, s.Legal c → ∃ s', s.step c = some s' := by
  refine exec_observe (fun s : Store 8 Nat => (s.trie.lookup 0xAF, s.trie.lookup 0xA1))
    (some 2, none) (by decide +kernel) fun s hs hobs => ?_
  simp only [Prod.mk.injEq] at hobs
  have hfound := lookup_shortest_prefix (exec_guardFn_iff.mp hs)
  exact ⟨hobs.1, hobs.2, hfound.2.2⟩

end Trie

end NvpSim.Base
