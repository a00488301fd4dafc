/-
  Linearizable histories of one register.

  Operations write or read values, and some PRECEDE others: they were over before the other began.  A
  `Linearization` is such a sequence of all operations that must have taken effect, and perhaps some of those
  that may have, in an order that no precedence contradicts.
-/
import Mathlib.Data.List.Basic

namespace NvpSim.Lib

open List

/-- What operations do, and which of them precede others. -/
structure RegisterHistory (O D : Type) where
  writes : O → D → Prop
  reads : O → D → Prop
  precedes : O → O → Prop
  /-- It certainly took effect. -/
  must : O → Prop
  /-- It may have taken effect. -/
  may : O → Prop

namespace RegisterHistory

variable {O D : Type} (H : RegisterHistory O D)

/-- What a register that holds `v` can do. -/
inductive Sequential : D → List O → Prop where
  | nil (v : D) : Sequential v []
  | write {v d : D} {o : O} {os : List O} (h : H.writes o d) (hs : Sequential d os) :
      Sequential v (o :: os)
  | read {v : D} {o : O} {os : List O} (h : H.reads o v) (hs : Sequential v os) :
      Sequential v (o :: os)

/-- **A linearization** of the history. -/
structure Linearization (v : D) (os : List O) : Prop where
  nodup : os.Nodup
  all : ∀ o, H.must o → o ∈ os
  only : ∀ o ∈ os, H.may o
  inOrder : os.Pairwise fun a b => ¬ H.precedes b a
  legal : H.Sequential v os

/-- The history is one of a register that first held some value. -/
def Linearizable : Prop := ∃ v os, H.Linearization v os

/-- An operation reads or writes, returns one value, and does not precede itself. -/
structure Proper : Prop where
  reads_only : ∀ {o d d'}, H.writes o d → ¬ H.reads o d'
  reads_one : ∀ {o d d'}, H.reads o d → H.reads o d' → d = d'
  irrefl : ∀ o, ¬ H.precedes o o

variable {H} {v d : D} {pre post os : List O} {r o : O}

section

variable (hp : H.Proper) (h : (pre ++ r :: post).Pairwise fun a b => ¬ H.precedes b a)
  (ho : o ∈ pre ++ r :: post)

include hp h ho

theorem mem_of_precedes (hor : H.precedes o r) : o ∈ pre := by
  obtain ⟨-, hr, -⟩ := pairwise_append.mp h
  rcases mem_append.mp ho with ho | ho
  · exact ho
  rcases mem_cons.mp ho with rfl | ho
  · exact absurd hor (hp.irrefl o)
  · exact absurd hor ((pairwise_cons.mp hr).1 o ho)

theorem mem_of_precedes' (hro : H.precedes r o) : o ∈ post := by
  obtain ⟨-, -, hpre⟩ := pairwise_append.mp h
  rcases mem_append.mp ho with ho | ho
  · exact absurd hro (hpre o ho r mem_cons_self)
  rcases mem_cons.mp ho with rfl | ho
  · exact absurd hro (hp.irrefl o)
  · exact ho

end

section

variable (h : H.Sequential v (pre ++ r :: post)) (hp : H.Proper) (hr : H.reads r d)

include h hp hr

theorem Sequential.value_eq (hpre : ∀ o ∈ pre, H.reads o d) : v = d := by
  obtain ⟨b, rest, heq, hb⟩ : ∃ b rest, pre ++ r :: post = b :: rest ∧ H.reads b d := by
    cases pre with
    | nil => exact ⟨r, post, rfl, hr⟩
    | cons b pre => exact ⟨b, pre ++ r :: post, rfl, hpre b mem_cons_self⟩
  rw [heq] at h
  cases h with
  | write hw _ => exact absurd hb (hp.reads_only hw)
  | read hr' _ => exact hp.reads_one hr' hb

/-- Where a read is in a sequence: its value is that of the last write before it, or the first one, and
    every read since returned it as well. -/
theorem Sequential.source :
    (∃ p w q, pre = p ++ w :: q ∧ H.writes w d ∧ ∀ o ∈ q, H.reads o d) ∨ ∀ o ∈ pre, H.reads o d := by
  induction pre generalizing v with
  | nil => exact Or.inr nofun
  | cons a pre ih =>
    cases h with
    | write ha hs =>
      rcases ih hs with ⟨p, w, q, rfl, hw, hq⟩ | hall
      · exact Or.inl ⟨a :: p, w, q, rfl, hw, hq⟩
      · exact Or.inl ⟨[], a, pre, rfl, hs.value_eq hp hr hall ▸ ha, hall⟩
    | read ha hs =>
      rcases ih hs with ⟨p, w, q, rfl, hw, hq⟩ | hall
      · exact Or.inl ⟨a :: p, w, q, rfl, hw, hq⟩
      · exact Or.inr (forall_mem_cons.mpr ⟨hs.value_eq hp hr hall ▸ ha, hall⟩)

end

/-- **Where the value of a read comes from**: from a write that the read does not precede, with no write
    between the two and the same value in every read between them; or it is the first value, no
    write precedes the read, and every read that does returned the same. -/
theorem Linearization.source (h : H.Linearization v os) (hp : H.Proper) (hmem : r ∈ os) (hr : H.reads r d) :
    (∃ w ∈ os, H.writes w d ∧ ¬ H.precedes r w ∧
      (∀ w' ∈ os, ∀ d', H.writes w' d' → H.precedes w w' → ¬ H.precedes w' r) ∧
      ∀ l ∈ os, ∀ d', H.reads l d' → H.precedes w l → H.precedes l r → d' = d) ∨
    ((∀ w ∈ os, ∀ d', H.writes w d' → ¬ H.precedes w r) ∧
      ∀ l ∈ os, ∀ d', H.reads l d' → H.precedes l r → d' = d) := by
  obtain ⟨pre, post, rfl⟩ := append_of_mem hmem
  rcases h.legal.source hp hr with ⟨p, w, q, rfl, hw, hq⟩ | hall
  · have hw_pre : w ∈ p ++ w :: q := by simp
    -- what lies between `w` and `r` is in `q`
    have hbetween : ∀ o ∈ p ++ w :: q ++ r :: post, H.precedes w o → H.precedes o r → o ∈ q := by
      intro o ho hwo hor
      have hpre := mem_of_precedes hp h.inOrder ho hor
      exact mem_of_precedes' hp (pairwise_append.mp h.inOrder).1 hpre hwo
    refine Or.inl ⟨w, mem_append_left _ hw_pre, hw, ?_, ?_, ?_⟩
    · exact (pairwise_append.mp h.inOrder).2.2 w hw_pre r mem_cons_self
    · intro w' hw' d' hwrites hww' hw'r
      exact hp.reads_only hwrites (hq w' (hbetween w' hw' hww' hw'r))
    · intro l hl d' hreads hwl hlr
      exact hp.reads_one hreads (hq l (hbetween l hl hwl hlr))
  · refine Or.inr ⟨fun w hw d' hwrites hwr => ?_, fun l hl d' hreads hlr => ?_⟩
    · exact hp.reads_only hwrites (hall w (mem_of_precedes hp h.inOrder hw hwr))
    · exact hp.reads_one hreads (hall l (mem_of_precedes hp h.inOrder hl hlr))

end RegisterHistory

end NvpSim.Lib
