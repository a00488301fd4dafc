/-
  An event as its OWNER sees it (`sim/eventq.hh`, `sim/eventq_impl.hh`).

  A device, a CPU or the energy manager owns `Event` objects and only ever asks three things of the queue:
  schedule, deschedule, reschedule.  What the owner can observe afterwards is whether the event is `scheduled`
  and its `when`; the bin pointers belong to the queue (`NvpSim.Sim.EventQueue`).
-/
import Mathlib.Algebra.Ring.Nat

namespace NvpSim.Sim

/-- Simulated time. -/
abbrev Tick := Nat

def maxTick : Nat := 2 ^ 64 - 1

/-- The owner-visible part of an `Event`: its `_when` and its `Scheduled` flag. -/
structure Event where
  when : Tick
  scheduled : Bool
  deriving Repr, DecidableEq

namespace Event

/-- `Event::Event` — a fresh event: `_when(0)`, no flag set. -/
def fresh : Event := ⟨0, false⟩

/-- `EventQueue::schedule`: asserts `when >= getCurTick()` and `!event->scheduled()`. -/
def schedule (e : Event) (curTick when : Tick) : Option Event :=
  if curTick ≤ when ∧ e.scheduled = false then some ⟨when, true⟩ else none

/-- `EventQueue::deschedule`: asserts `event->scheduled()`; `_when` keeps its value. -/
def deschedule (e : Event) : Option Event :=
  if e.scheduled = true then some { e with scheduled := false } else none

/-- `EventQueue::reschedule` with `always = false`: asserts the new time and `scheduled()`. -/
def reschedule (e : Event) (curTick when : Tick) : Option Event :=
  if curTick ≤ when ∧ e.scheduled = true then some ⟨when, true⟩ else none

/-- What `EventQueue::serviceOne` does to the flag before it calls `process()`. -/
def fired (e : Event) : Event := { e with scheduled := false }

/-- When the event will fire, if it will: all that its owner needs to know about the queue. -/
def due (e : Event) : Option Tick := if e.scheduled then some e.when else none

@[simp] theorem fresh_scheduled : fresh.scheduled = false := rfl
@[simp] theorem fired_scheduled (e : Event) : e.fired.scheduled = false := rfl

variable {e : Event} {w : Tick}

theorem schedule_eq_some {e' : Event} {cur : Tick} :
    e.schedule cur w = some e' ↔ cur ≤ w ∧ e.scheduled = false ∧ e' = ⟨w, true⟩ := by
  unfold schedule
  rw [Option.ite_none_right_eq_some, Option.some.injEq, and_assoc, eq_comm (b := e')]

theorem deschedule_eq_some {e' : Event} : e.deschedule = some e' ↔ e.scheduled = true ∧ e' = ⟨e.when, false⟩ := by
  unfold deschedule
  rw [Option.ite_none_right_eq_some, Option.some.injEq, eq_comm (b := e')]

@[simp] theorem due_fired (e : Event) : e.fired.due = none := rfl

theorem due_eq_none : e.due = none ↔ e.scheduled = false := by
  unfold due; cases e.scheduled <;> simp

theorem due_eq_some : e.due = some w ↔ e.scheduled = true ∧ e.when = w := by
  unfold due; cases e.scheduled <;> simp

theorem schedule_of_due_none {cur : Tick} (h : e.due = none) (hle : cur ≤ w) : e.schedule cur w = some ⟨w, true⟩ :=
  schedule_eq_some.mpr ⟨hle, due_eq_none.mp h, rfl⟩

theorem deschedule_of_due_some (h : e.due = some w) : e.deschedule = some ⟨w, false⟩ := by
  obtain ⟨hs, rfl⟩ := due_eq_some.mp h
  exact deschedule_eq_some.mpr ⟨hs, rfl⟩

theorem reschedule_of_due_some {cur w' : Tick} (h : e.due = some w) (hle : cur ≤ w') :
    e.reschedule cur w' = some ⟨w', true⟩ := by
  simp [reschedule, hle, (due_eq_some.mp h).1]

end Event
end NvpSim.Sim
