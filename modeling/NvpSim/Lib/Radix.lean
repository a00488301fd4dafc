/-
  A radix tree of tables laid out in a memory.

  The entry of table `t` for the digit `o` lies at the address `slot t o`, and the memory `m` says which table
  an entry points to, if any.  `follow` walks a path of digits down from a root; a tree of depth `d` stores its
  contents under the paths of length `d`, and `V` is the set of paths the tree is about.
-/
import Mathlib.Data.List.Induction

namespace NvpSim.Lib

open List

variable {A O T : Type}

/-- The table a path leads to. -/
def follow (slot : T → O → A) (m : A → Option T) : T → List O → Option T
  | t, [] => some t
  | t, o :: p => (m (slot t o)).bind fun t' => follow slot m t' p

theorem follow_snoc (slot : T → O → A) (m : A → Option T) (t : T) (p : List O) (o : O) :
    follow slot m t (p ++ [o]) = (follow slot m t p).bind fun t' => m (slot t' o) := by
  induction p generalizing t with
  | nil =>
    show (m (slot t o)).bind (fun t' => some t') = m (slot t o)
    exact Option.bind_fun_some _
  | cons a p ih =>
    show (m (slot t a)).bind _ = ((m (slot t a)).bind _).bind _
    rw [Option.bind_assoc]
    exact congrArg _ (funext fun t' => ih t')

/-- With a path, every part of it from the root on. -/
def PrefixClosed (V : List O → Prop) : Prop := ∀ p o, V (p ++ [o]) → V p

theorem PrefixClosed.of_append {V : List O → Prop} (hV : PrefixClosed V) {p q : List O} (h : V (p ++ q)) : V p := by
  induction q using List.reverseRecOn with
  | nil => rwa [append_nil] at h
  | append_singleton q o ih =>
    rw [← append_assoc] at h
    exact ih (hV _ o h)

section Tree

variable {slot : T → O → A} {m m' : A → Option T} {r t t' : T} {p q : List O} {o : O} {V : List O → Prop}

/-- No two entries share an address. -/
def Separate (slot : T → O → A) (m : A → Option T) (r : T) (V : List O → Prop) : Prop :=
  ∀ p o q o' t t', V (p ++ [o]) → V (q ++ [o']) → follow slot m r p = some t →
    follow slot m r q = some t' → slot t o = slot t' o' → p = q ∧ o = o'

theorem follow_congr (hV : PrefixClosed V)
    (h : ∀ p o t, V (p ++ [o]) → follow slot m r p = some t → m' (slot t o) = m (slot t o))
    (hq : V q) : follow slot m' r q = follow slot m r q := by
  induction q using List.reverseRecOn with
  | nil => rfl
  | append_singleton q o ih =>
    rw [follow_snoc, follow_snoc, ih (hV q o hq)]
    cases ht : follow slot m r q with
    | none => rfl
    | some t => exact h q o t hq ht

/-- **What one store does**: only the paths through the entry that was written change. -/
theorem follow_store (hV : PrefixClosed V) (hsep : Separate slot m r V) (hp : V (p ++ [o]))
    (ht : follow slot m r p = some t) (hm : ∀ t' o', slot t' o' ≠ slot t o → m' (slot t' o') = m (slot t' o'))
    (hq : V q) (hnot : ¬ (p ++ [o]) <+: q) : follow slot m' r q = follow slot m r q := by
  induction q using List.reverseRecOn with
  | nil => rfl
  | append_singleton q a ih =>
    have hnot' : ¬ (p ++ [o]) <+: q := fun h => hnot (h.trans (prefix_append q [a]))
    rw [follow_snoc, follow_snoc, ih (hV q a hq) hnot']
    cases ht' : follow slot m r q with
    | none => rfl
    | some t' =>
      refine hm t' a fun heq => hnot ?_
      obtain ⟨rfl, rfl⟩ := hsep q a p o t' t hq hp ht' ht heq
      exact prefix_refl _

theorem follow_store_self (hV : PrefixClosed V) (hsep : Separate slot m r V) (hp : V (p ++ [o]))
    (ht : follow slot m r p = some t) (hm : ∀ t' o', slot t' o' ≠ slot t o → m' (slot t' o') = m (slot t' o')) :
    follow slot m' r p = some t ∧ follow slot m' r (p ++ [o]) = m' (slot t o) := by
  have hnot : ¬ (p ++ [o]) <+: p := fun h => by
    have hlen := h.length_le
    rw [length_append, length_singleton] at hlen
    omega
  have hp' : follow slot m' r p = some t :=
    (follow_store hV hsep hp ht hm (hV p o hp) hnot).trans ht
  exact ⟨hp', by rw [follow_snoc, hp']; rfl⟩

theorem Separate.congr (hsep : Separate slot m r V)
    (h : ∀ p o, V (p ++ [o]) → follow slot m' r p = follow slot m r p) : Separate slot m' r V := by
  intro p o q o' t t' hp hq ht ht' heq
  rw [h p o hp] at ht
  rw [h q o' hq] at ht'
  exact hsep p o q o' t t' hp hq ht ht' heq

theorem follow_of_prefix_empty (hp : follow slot m r p = some t)
    (hempty : ∀ o, V (p ++ [o]) → m (slot t o) = none) (hV : PrefixClosed V) (hq : V (p ++ q)) :
    follow slot m r (p ++ q) = if q = [] then some t else none := by
  induction q using List.reverseRecOn with
  | nil => rw [append_nil, if_pos rfl]; exact hp
  | append_singleton q a ih =>
    rw [← append_assoc] at hq ⊢
    have hne : q ++ [a] ≠ [] := by simp
    rw [if_neg hne, follow_snoc, ih (hV _ a hq)]
    by_cases hnil : q = []
    · subst hnil
      rw [append_nil] at hq
      exact hempty a hq
    · rw [if_neg hnil]
      rfl

theorem follow_of_prefix_none (hp : follow slot m r p = none) : follow slot m r (p ++ q) = none := by
  induction q using List.reverseRecOn with
  | nil => rw [append_nil]; exact hp
  | append_singleton q a ih => rw [← append_assoc, follow_snoc, ih]; rfl

/-- **Hanging in a fresh empty table** at an entry that led nowhere: only the path to it is new. -/
theorem follow_link (hV : PrefixClosed V) (hsep : Separate slot m r V) (hp : V (p ++ [o]))
    (ht : follow slot m r p = some t) (hnone : m (slot t o) = none)
    (hm : ∀ t' o', slot t' o' ≠ slot t o → m' (slot t' o') = m (slot t' o'))
    (hlink : m' (slot t o) = some t') (hempty : ∀ o', V (p ++ [o] ++ [o']) → m' (slot t' o') = none)
    (hq : V q) (hne : q ≠ p ++ [o]) : follow slot m' r q = follow slot m r q := by
  by_cases hpre : (p ++ [o]) <+: q
  · obtain ⟨rest, rfl⟩ := hpre
    have hself := (follow_store_self hV hsep hp ht hm).2.trans hlink
    have hold : follow slot m r (p ++ [o]) = none := by rw [follow_snoc, ht]; exact hnone
    have hrest : rest ≠ [] := fun hnil => hne (by rw [hnil, append_nil])
    rw [follow_of_prefix_empty hself hempty hV hq, if_neg hrest, follow_of_prefix_none hold]
  · exact follow_store hV hsep hp ht hm hq hpre

/-- **A fresh table keeps the entries apart.** -/
theorem Separate.link (hV : PrefixClosed V) (hsep : Separate slot m r V)
    (hself : follow slot m' r (p ++ [o]) = some t')
    (hother : ∀ q, V q → q ≠ p ++ [o] → follow slot m' r q = follow slot m r q)
    (hfresh : ∀ q a t a', V (q ++ [a]) → follow slot m r q = some t → V (p ++ [o] ++ [a']) → slot t a ≠ slot t' a')
    (hinj : ∀ a a', V (p ++ [o] ++ [a]) → V (p ++ [o] ++ [a']) → slot t' a = slot t' a' → a = a') :
    Separate slot m' r V := by
  intro q a q' a' u u' hq hq' hu hu' heq
  by_cases h : q = p ++ [o]
  · subst h
    cases hself.symm.trans hu
    by_cases h' : q' = p ++ [o]
    · subst h'
      cases hself.symm.trans hu'
      exact ⟨rfl, hinj a a' hq hq' heq⟩
    · rw [hother q' (hV q' a' hq') h'] at hu'
      exact absurd heq.symm (hfresh q' a' u' a hq' hu' hq)
  · rw [hother q (hV q a hq) h] at hu
    by_cases h' : q' = p ++ [o]
    · subst h'
      cases hself.symm.trans hu'
      exact absurd heq (hfresh q a u a' hq hu hq')
    · rw [hother q' (hV q' a' hq') h'] at hu'
      exact hsep q a q' a' u u' hq hq' hu hu' heq

end Tree

end NvpSim.Lib
