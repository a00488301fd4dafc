/-
  Clock edges (`sim/clocked_object.hh`, `sim/clock_domain.cc`).

  `update` never moves an edge back: one that was found with a long period stays when the period is shortened,
  and can then be more than a period ahead.

  The edge that `update` finds is never in the past, and less than a period ahead unless the old one was not
  (`update_edge`).  So the range that is documented for `clockEdge` holds in runs that do not shorten the period.
-/
import NvpSim.Base.Bitfield
import NvpSim.Lib.Run

namespace NvpSim.Sim

open NvpSim.Base NvpSim.Lib

/-- A `ClockedObject`, with the period of its clock domain. -/
structure ClockedObject where
  tick : Nat
  cycle : Nat
  clockPeriod : Nat
  pos : 0 < clockPeriod

namespace ClockedObject

def update (o : ClockedObject) (curTick : Nat) : ClockedObject :=
  if curTick ≤ o.tick then o
  else
    let o := { o with tick := o.tick + o.clockPeriod, cycle := o.cycle + 1 }
    if curTick ≤ o.tick then o
    else
      let elapsedCycles := divCeil (curTick - o.tick) o.clockPeriod
      { o with cycle := o.cycle + elapsedCycles, tick := o.tick + elapsedCycles * o.clockPeriod }

def clockEdge (o : ClockedObject) (curTick : Nat) (cycles : Nat) : Nat :=
  (o.update curTick).tick + o.clockPeriod * cycles

def nextCycle (o : ClockedObject) (curTick : Nat) : Nat := o.clockEdge curTick 1

/-- A call: a query, or a new period for the clock domain. -/
inductive Call where
  | query (curTick : Nat)
  | setPeriod (curTick period : Nat)

/-- The calls in the order of their ticks, with the tick of the last one; a period of zero is fatal. -/
def step (s : Nat × ClockedObject) : Call → Option (Nat × ClockedObject)
  | .query curTick => if s.1 ≤ curTick then some (curTick, s.2.update curTick) else none
  | .setPeriod curTick period =>
    -- the members are aligned with the old period
    if h : s.1 ≤ curTick ∧ 0 < period then
      some (curTick, { s.2.update curTick with clockPeriod := period, pos := h.2 })
    else none

/-- The call does not shorten the period. -/
def NotShorter (s : Nat × ClockedObject) : Call → Prop
  | .query _ => True
  | .setPeriod _ period => s.2.clockPeriod ≤ period

/-- What is documented of `clockEdge` and `nextCycle`. -/
def InRange (o : ClockedObject) (t : Nat) : Prop :=
  (∀ c, t + o.clockPeriod * c ≤ o.clockEdge t c ∧ o.clockEdge t c < t + o.clockPeriod + o.clockPeriod * c) ∧
    t + o.clockPeriod ≤ o.nextCycle t ∧ o.nextCycle t < t + 2 * o.clockPeriod

variable {o : ClockedObject} {t : Nat}

/-- **The edge** is not in the past, and it is less than a period ahead unless the old one is not. -/
theorem update_edge (o : ClockedObject) (t : Nat) : (o.update t).clockPeriod = o.clockPeriod ∧
    t ≤ (o.update t).tick ∧ ((o.update t).tick < t + o.clockPeriod ↔ o.tick < t + o.clockPeriod) := by
  have hpos := o.pos
  unfold update
  dsimp only
  split
  · rename_i hnow
    exact ⟨rfl, hnow, Iff.rfl⟩
  split
  · rename_i hnext
    exact ⟨rfl, hnext, by dsimp only; omega⟩
  · obtain ⟨hlow, hhigh⟩ := divCeil_bounds (a := t - (o.tick + o.clockPeriod)) hpos
    refine ⟨rfl, ?_⟩
    dsimp only
    omega

theorem inRange_iff : o.InRange t ↔ o.tick < t + o.clockPeriod := by
  obtain ⟨-, hlow, hhigh⟩ := o.update_edge t
  rw [← hhigh]
  unfold InRange nextCycle clockEdge
  constructor
  · rintro ⟨hall, -⟩
    have := (hall 0).2
    omega
  · intro hlt
    exact ⟨fun c => by omega, by omega, by omega⟩

/-- **The documented range** holds of a query if and only if the edge found last is less than a period ahead of
    it; after a run in which no call shortened the period it always does. -/
theorem clockEdge_range (t : Nat) : (∀ o : ClockedObject, o.InRange t ↔ o.tick < t + o.clockPeriod) ∧
    ∀ {period : Nat} {hpos : 0 < period} {cs : List Call} {s : Nat × ClockedObject},
      Run (Guarded (stepOf step) NotShorter) (0, ⟨0, 0, period, hpos⟩) cs s → s.1 ≤ t → s.2.InRange t := by
  refine ⟨fun _ => inRange_iff, fun {period hpos cs s} hrun ht => inRange_iff.mpr ?_⟩
  have hinv : s.2.tick < s.1 + s.2.clockPeriod := by
    refine hrun.inv (P := fun s => s.2.tick < s.1 + s.2.clockPeriod) ?_ (by simpa using hpos)
    rintro ⟨now, o⟩ c s' hlt ⟨hs, hc⟩
    have hedge (curTick : Nat) := o.update_edge curTick
    cases c with
    | query curTick =>
      obtain ⟨hle, hs⟩ := Option.ite_none_right_eq_some.mp hs
      cases hs
      have := hedge curTick
      dsimp only at *
      omega
    | setPeriod curTick period =>
      obtain ⟨hle, hs⟩ := Option.dite_none_right_eq_some.mp hs
      cases hs
      have hc : o.clockPeriod ≤ period := hc
      have := hedge curTick
      dsimp only at *
      omega
  omega

theorem clockEdge_range_longer : ∃ s,
    Run (Guarded (stepOf step) NotShorter) (0, ⟨0, 0, 1000, by decide⟩) [.setPeriod 7 2000] s ∧ s.2.InRange 8 := by
  have hrun : Run (Guarded (stepOf step) NotShorter) (0, ⟨0, 0, 1000, by decide⟩) [.setPeriod 7 2000]
      (7, ⟨1000, 1, 2000, by decide⟩) :=
    .cons ⟨by simp [stepOf, step, update], by simp [NotShorter]⟩ .nil
  exact ⟨_, hrun, (clockEdge_range 8).2 hrun (by decide)⟩

/-- **A shorter period**: at tick 1 the edge is still that of the old one. -/
theorem clockEdge_after_shortening : (step (0, ⟨0, 0, 1000, by decide⟩) (.setPeriod 1 10)).map
    (fun s => (s.2.clockPeriod, s.2.clockEdge 1 0, s.2.nextCycle 1)) = some (10, 1000, 1010) := by
  decide

end ClockedObject

end NvpSim.Sim
