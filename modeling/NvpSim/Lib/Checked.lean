/-
  Code that may fail and says how: `Except ε α`, with rules of pre- and postconditions.

  `Ensures x Q E` — if `x` returns, its value satisfies `Q`; if it fails, its fault satisfies `E`.  With `E =
  fun _ => False` this is total correctness; with a weaker `E` it says which faults are excluded.

  The rules follow the constructs of a `do` block: one after the other (`bind`), a test (`ite`), a weaker
  postcondition (`imp`, `post`), a loop (`foldlM_hist`); and what is known of a call that did return (`of_toOption`).
-/

namespace NvpSim.Lib

open List

variable {ε α β : Type} {x y : Except ε α} {Q R : α → Prop} {E E' : ε → Prop}

/-- If `x` returns, its value satisfies `Q`; if it fails, its fault satisfies `E`. -/
def Ensures (x : Except ε α) (Q : α → Prop) (E : ε → Prop) : Prop :=
  match x with
  | .ok a => Q a
  | .error e => E e

namespace Ensures

theorem ok {a : α} (h : Q a) : Ensures (.ok a : Except ε α) Q E := h

theorem error {e : ε} (h : E e) : Ensures (.error e : Except ε α) Q E := h

/-- **One after the other.** -/
theorem bind {f : α → Except ε β} {Q : β → Prop} (hx : Ensures x R E)
    (hf : ∀ a, R a → Ensures (f a) Q E) : Ensures (x >>= f) Q E := by
  cases x with
  | ok a => exact hf a hx
  | error e => exact hx

/-- **Weakening.** -/
theorem imp (hx : Ensures x R E) (hQ : ∀ a, R a → Q a) (hE : ∀ e, E e → E' e) : Ensures x Q E' := by
  cases x with
  | ok a => exact hQ a hx
  | error e => exact hE e hx

theorem post (hx : Ensures x R E) (hQ : ∀ a, R a → Q a) : Ensures x Q E := hx.imp hQ fun _ => id

/-- **A test.** -/
theorem ite {c : Prop} [Decidable c] (ht : c → Ensures x Q E) (he : ¬ c → Ensures y Q E) :
    Ensures (if c then x else y) Q E := by
  by_cases h : c
  · rw [if_pos h]; exact ht h
  · rw [if_neg h]; exact he h

/-- What is known of a call that did return. -/
theorem of_toOption {a : α} (h : Ensures x Q E) (hx : x.toOption = some a) : Q a := by
  cases x with
  | ok b => exact Option.some.inj hx ▸ h
  | error e => cases hx

theorem exists_ok (h : Ensures x Q fun _ => False) : ∃ a, x = .ok a ∧ Q a := by
  cases x with
  | ok a => exact ⟨a, rfl, h⟩
  | error e => exact h.elim

/-- **A loop over a list**, with what has been gone through in the invariant. -/
theorem foldlM_hist {f : α → β → Except ε α} {bs d : List β} {P : List β → α → Prop} {a : α}
    (h : P d a) (hturn : ∀ d a b, b ∈ bs → P d a → Ensures (f a b) (P (d ++ [b])) E) :
    Ensures (bs.foldlM f a) (P (d ++ bs)) E := by
  induction bs generalizing d a with
  | nil =>
    rw [append_nil]
    exact h
  | cons b bs ih =>
    rw [foldlM_cons, append_cons]
    refine (hturn d a b (mem_cons_self ..) h).bind fun a' ha' => ?_
    exact ih ha' fun d a b hb => hturn d a b (mem_cons_of_mem _ hb)

end Ensures

end NvpSim.Lib
