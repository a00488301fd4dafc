/-
  Machines that read one input at a time and answer each with a list of messages.

  A machine is a function `step s e = (s', msgs)`.  The rules are the inductions over the inputs, once for all
  machines:

  * `state_inv`       — what every step keeps holds in the end;
  * `isChain_output`  — if the state knows the LAST message, and a step that speaks says something else, then
    no two messages in a row are the same;
  * `count_eq`        — a counter that goes up at certain steps counts them.
-/
import Mathlib.Data.List.Chain

namespace NvpSim.Lib.Machine

open List

variable {σ ι ο : Type} (step : σ → ι → σ × List ο)

/-- The state after the inputs. -/
def state (s : σ) : List ι → σ
  | [] => s
  | e :: es => state (step s e).1 es

/-- The messages, in order. -/
def output (s : σ) : List ι → List ο
  | [] => []
  | e :: es => (step s e).2 ++ output (step s e).1 es

/-- The number of steps between two states that `R` relates. -/
def count (R : σ → σ → Prop) [DecidableRel R] (s : σ) : List ι → Nat
  | [] => 0
  | e :: es => (if R s (step s e).1 then 1 else 0) + count R (step s e).1 es

variable {step}

/-- **The invariant rule.** -/
theorem state_inv {P : σ → Prop} (hstep : ∀ s e, P s → P (step s e).1) {s : σ} (h : P s)
    (es : List ι) : P (state step s es) := by
  induction es generalizing s with
  | nil => exact h
  | cons e es ih => exact ih (hstep s e h)

theorem state_snoc (s : σ) (es : List ι) (e : ι) : state step s (es ++ [e]) = (step (state step s es) e).1 := by
  induction es generalizing s with
  | nil => rfl
  | cons e' es ih => exact ih _

theorem output_snoc (s : σ) (es : List ι) (e : ι) :
    output step s (es ++ [e]) = output step s es ++ (step (state step s es) e).2 := by
  induction es generalizing s with
  | nil =>
    show (step s e).2 ++ [] = [] ++ (step s e).2
    rw [append_nil, nil_append]
  | cons e' es ih =>
    show (step s e').2 ++ output step (step s e').1 (es ++ [e]) = _
    rw [ih, ← append_assoc]
    rfl

theorem output_forall {Q : ο → Prop} (hstep : ∀ s e, ∀ m ∈ (step s e).2, Q m) (s : σ) (es : List ι) :
    ∀ m ∈ output step s es, Q m := by
  induction es generalizing s with
  | nil => exact forall_mem_nil _
  | cons e es ih => exact forall_mem_append.mpr ⟨hstep s e, ih _⟩

/-- **The rule for messages that are never repeated**: `last s` is the last message before `s`. -/
theorem isChain_output {last : σ → ο} (hstep : ∀ s e, ((step s e).2 = [] ∧ last (step s e).1 = last s) ∨
      ∃ m, (step s e).2 = [m] ∧ last s ≠ m ∧ last (step s e).1 = m) (s : σ) (es : List ι) :
    List.IsChain (· ≠ ·) (last s :: output step s es) := by
  induction es generalizing s with
  | nil => exact .singleton _
  | cons e es ih =>
    have hrest := ih (step s e).1
    show List.IsChain (· ≠ ·) (last s :: ((step s e).2 ++ output step (step s e).1 es))
    rcases hstep s e with ⟨hquiet, hlast⟩ | ⟨m, hspeaks, hne, hlast⟩
    · rw [hquiet, ← hlast]
      exact hrest
    · rw [hspeaks]
      rw [hlast] at hrest
      exact isChain_cons_cons.mpr ⟨hne, hrest⟩

/-- **The rule for counters.** -/
theorem count_eq {R : σ → σ → Prop} [DecidableRel R] {c : σ → Nat}
    (hstep : ∀ s e, c (step s e).1 = c s + if R s (step s e).1 then 1 else 0) (s : σ) (es : List ι) :
    c (state step s es) = c s + count step R s es := by
  induction es generalizing s with
  | nil => rfl
  | cons e es ih =>
    show c (state step (step s e).1 es) = c s + (_ + count step R (step s e).1 es)
    rw [ih, hstep, Nat.add_assoc]

end NvpSim.Lib.Machine
