/-
  Tasks across power failures: is an accepted task completed exactly once?

  The device remembers a task that a power failure interrupted in ONE word, `delay_remained`: at every point

      accepted = completed + pending + lost,

  where a task is pending while it runs, and while the device is off or re-initialising with `delay_remained >
  0`.  Tasks get LOST in two ways, both at POWER_OFF:

    * during the re-initialisation that follows a power-on, because that branch clears `delay_remained`, also
      when it still holds a task;
    * while working, when the time to remember is 0, which reads as "no task".
-/
import NvpSim.Vdev.Consistency

namespace NvpSim.Vdev

open NvpSim.Sim NvpSim.Lib

/-! ## The balance of one step -/

namespace Lifecycle

/-- Tasks accepted, not completed, and still remembered. -/
def pending (a : Lifecycle) : Nat :=
  match a.phase with
  | .working _ => 1
  | .off | .initialising _ => if 0 < a.delayRemained then 1 else 0
  | .boot | .raw | .idle => 0

/-- A power failure at `l` does not forget the pending task. -/
def Keeps (p : VirtualDeviceParams) (a : Lifecycle) : Label → Prop
  | .powerOff t =>
    match a.phase with
    | .initialising _ => a.delayRemained = 0
    | .working w => 0 < if p.isInterruptable then w - t else p.delaySelf
    | .boot | .off | .raw | .idle => True
  | .powerOn _ | .access _ _ | .fireInit _ | .fireInterrupt _ => True

instance (p : VirtualDeviceParams) (a : Lifecycle) (l : Label) : Decidable (a.Keeps p l) :=
  match l with
  | .powerOff t => match h : a.phase with
    | .initialising _ => decidable_of_iff (a.delayRemained = 0) (by simp [Keeps, h])
    | .working w => decidable_of_iff (0 < if p.isInterruptable then w - t else p.delaySelf)
        (by simp [Keeps, h])
    | .boot | .off | .raw | .idle => isTrue (by simp [Keeps, h])
  | .powerOn _ | .access _ _ | .fireInit _ | .fireInterrupt _ => isTrue trivial

/-- `delay_remained` holds a task only where one can be pending. -/
structure Tidy (a : Lifecycle) : Prop where
  atRest : a.phase = .boot ∨ a.phase = .raw ∨ a.phase = .idle → a.delayRemained = 0
  fresh : a.needRecover = false → a.delayRemained = 0

/-- The phase a legal label finds. -/
def Enabled (a : Lifecycle) : Label → Prop
  | .powerOff _ => a.phase ≠ .off
  | .powerOn _ => a.phase = .off
  | .access _ _ => a.phase.power = .on
  | .fireInit t => a.phase = .initialising t
  | .fireInterrupt t => a.phase = .working t

theorem next_access (p : VirtualDeviceParams) (a : Lifecycle) (t : Tick) (pkt : Packet) :
    a.next p (.access t pkt) = a ∨ (a.phase = .raw ∧ command p pkt = some .init ∧
      a.next p (.access t pkt) = { a with phase := .initialising (t + p.delaySet) }) ∨
    (a.phase = .idle ∧ command p pkt = some .activate ∧
      a.next p (.access t pkt) = { a with phase := .working (t + p.delaySelf) }) := by
  obtain ⟨φ, nr, dr⟩ := a
  cases hc : command p pkt with
  | none => simp [Lifecycle.next, hc]
  | some c => cases c <;> cases φ <;> simp [Lifecycle.next, hc]

theorem Tidy.next {p : VirtualDeviceParams} {a : Lifecycle} {l : Label} (h : a.Tidy)
    (hen : a.Enabled l) : (a.next p l).Tidy := by
  obtain ⟨φ, nr, dr⟩ := a
  obtain ⟨hrest, hfresh⟩ := h
  cases l with
  | powerOff t =>
    cases φ with
    | boot | off | raw => exact ⟨fun h => by simp [Lifecycle.next] at h, hfresh⟩
    | idle | initialising w | working w =>
      exact ⟨fun h => by simp [Lifecycle.next] at h, fun h => by simp [Lifecycle.next] at h⟩
  | powerOn t =>
    cases nr with
    | true => exact ⟨fun h => by simp [Lifecycle.next] at h, fun h => by simp [Lifecycle.next] at h⟩
    | false => exact ⟨fun _ => hfresh rfl, fun _ => hfresh rfl⟩
  | access t pkt =>
    rcases next_access p ⟨φ, nr, dr⟩ t pkt with hsame | ⟨-, -, hnew⟩ | ⟨-, -, hnew⟩
    · rw [hsame]; exact ⟨hrest, hfresh⟩
    · rw [hnew]; exact ⟨fun h => by simp at h, hfresh⟩
    · rw [hnew]; exact ⟨fun h => by simp at h, hfresh⟩
  | fireInit t =>
    refine ⟨fun h => ?_, hfresh⟩
    rcases Nat.eq_zero_or_pos dr with hzero | hpos
    · exact hzero
    · simp [Lifecycle.next, hpos] at h
  | fireInterrupt t => exact ⟨fun _ => rfl, fun _ => rfl⟩

/-- **The balance of one step**: what was pending or is accepted now is completed, still pending,
    or — when the step does not keep it — lost. -/
theorem balance {p : VirtualDeviceParams} {a : Lifecycle} {l : Label} (h : a.Tidy) (hen : a.Enabled l) :
    a.pending + a.accepts p l = completes l + (a.next p l).pending + (if a.Keeps p l then 0 else 1) := by
  obtain ⟨φ, nr, dr⟩ := a
  cases l with
  | powerOff t =>
    cases φ with
    | off => exact absurd rfl hen
    | boot | raw | idle =>
      have hzero : dr = 0 := h.atRest (by simp)
      simp [pending, accepts, completes, Lifecycle.next, Keeps, hzero]
    | initialising w =>
      by_cases hpos : 0 < dr
      · simp [pending, accepts, completes, Lifecycle.next, Keeps, hpos, Nat.pos_iff_ne_zero.mp hpos]
      · simp [pending, accepts, completes, Lifecycle.next, Keeps, Nat.eq_zero_of_not_pos hpos]
    | working w =>
      by_cases hpos : 0 < if p.isInterruptable then w - t else p.delaySelf
      · simp only [pending, accepts, completes, Lifecycle.next, Keeps, hpos, if_true]
      · simp only [pending, accepts, completes, Lifecycle.next, Keeps, hpos, if_false]
  | powerOn t =>
    cases hen
    cases nr with
    | true => simp [pending, accepts, completes, Lifecycle.next, Keeps]
    | false =>
      have hzero : dr = 0 := h.fresh rfl
      simp [pending, accepts, completes, Lifecycle.next, Keeps, hzero]
  | access t pkt =>
    cases hc : command p pkt with
    | none => simp [accepts, completes, Lifecycle.next, Keeps, hc]
    | some c =>
      cases c <;> cases φ <;>
        simp [pending, accepts, completes, Lifecycle.next, Keeps, hc]
      -- INIT to a raw device: nothing was remembered
      exact h.atRest (by simp)
  | fireInit t =>
    cases hen
    by_cases hpos : 0 < dr <;> simp [pending, accepts, completes, Lifecycle.next, Keeps, hpos]
  | fireInterrupt t =>
    cases hen
    simp [pending, accepts, completes, Lifecycle.next, Keeps]

end Lifecycle

/-! ## The balance of a run -/

namespace Sys

/-- **The exact condition**, on the state before a POWER_OFF: no task is waiting for the
    initialisation that is being cut off, and a task being cut off leaves a positive delay. -/
def TaskKept (p : VirtualDeviceParams) (s : Sys) : Label → Prop
  | .powerOff t =>
    (s.dev.has .ready = false → s.dev.has .busy = true → s.dev.delayRemained = 0) ∧
    (s.dev.has .ready = true → s.dev.has .busy = true →
      0 < if p.isInterruptable then s.dev.eventInterrupt.when - t else p.delaySelf)
  | .powerOn _ | .access _ _ | .fireInit _ | .fireInterrupt _ => True

end Sys

/-- The status byte says READY and IDLE, and neither event is scheduled. -/
def AtRest (d : VirtualDevice) : Prop :=
  d.has .ready = true ∧ d.has .idle = true ∧ d.eventInit.scheduled = false ∧ d.eventInterrupt.scheduled = false

namespace Simulates

variable {p : VirtualDeviceParams} {s : Sys} {a : Lifecycle} {l : Label}

theorem taskKept_iff (h : Simulates s a) : s.TaskKept p l ↔ a.Keeps p l := by
  cases l with
  | powerOn t | access t pkt | fireInit t | fireInterrupt t => exact Iff.rfl
  | powerOff t =>
    unfold Sys.TaskKept Lifecycle.Keeps
    rw [h.dev.ready, h.dev.busy, h.dev.delayRemained]
    have ht := h.dev.taskDue
    cases hφ : a.phase with
    | boot | off | raw | idle | initialising w => simp [Phase.ready, Phase.busy]
    | working w =>
      rw [hφ] at ht
      simp [Phase.ready, Phase.busy, (Event.due_eq_some.mp ht).2]

theorem enabled (h : Simulates s a) (hleg : s.Legal p l) : a.Enabled l := by
  cases l with
  | powerOff t =>
    intro hoff
    exact hleg.2 (by rw [h.power, hoff]; rfl)
  | powerOn t =>
    have hpow := h.power.symm.trans hleg.2
    show a.phase = .off
    cases hφ : a.phase with
    | off => rfl
    | boot | raw | initialising _ | idle | working _ => rw [hφ] at hpow; cases hpow
  | access t pkt => exact h.power.symm.trans hleg.2.1
  | fireInit t => exact h.phase_of_fireInit hleg
  | fireInterrupt t => exact h.phase_of_fireInterrupt hleg

theorem pending_of_atRest (h : Simulates s a) (hrest : AtRest s.dev) : a.pending = 0 := by
  obtain ⟨hready, -, -, htask⟩ := hrest
  rw [h.dev.ready] at hready
  have hdue := h.dev.taskDue
  rw [Event.due_eq_none.mpr htask] at hdue
  unfold Lifecycle.pending
  cases hφ : a.phase with
  | boot | raw | idle => rfl
  | off | initialising w => rw [hφ] at hready; cases hready
  | working w => rw [hφ] at hdue; cases hdue

end Simulates

/-- Legal labels that do not write INIT to a ready idle device, and also keep the task. -/
abbrev driven (p : VirtualDeviceParams) : Sys → Label → Prop :=
  fun s l => s.Legal p l ∧ s.InitOk p l

abbrev drivenKept (p : VirtualDeviceParams) : Sys → Label → Prop :=
  fun s l => (s.Legal p l ∧ s.InitOk p l) ∧ s.TaskKept p l

theorem run_balance {p : VirtualDeviceParams} {ls : List Label} {s : Sys}
    (h : Run (Guarded (stepOf (Sys.step p)) (driven p)) .boot ls s) :
    ∃ lost, s.accepted = s.completed + (ls.foldl (Lifecycle.next p) .boot).pending + lost ∧
      (lost = 0 ↔ Run (Guarded (stepOf (Sys.step p)) (drivenKept p)) .boot ls s) := by
  -- the run itself rides along, so that the life cycle of every state on it is at hand
  refine (h.inv_hist (P := fun ls s =>
    Run (Guarded (stepOf (Sys.step p)) (driven p)) .boot ls s ∧
    (ls.foldl (Lifecycle.next p) .boot).Tidy ∧
    ∃ lost, s.accepted = s.completed + (ls.foldl (Lifecycle.next p) .boot).pending + lost ∧
      (lost = 0 ↔ Run (Guarded (stepOf (Sys.step p)) (drivenKept p)) .boot ls s)) ?_
    ⟨.nil, ⟨fun _ => rfl, fun _ => rfl⟩, 0, rfl, fun _ => .nil, fun _ => rfl⟩).2.2
  rintro ls s l s' ⟨hrun, htidy, lost, hbal, hlost⟩ ⟨hstep, hleg, hok⟩
  have hsim := run_simulates hrun
  have hen := hsim.enabled hleg
  obtain ⟨s'', hs'', -, -, hacc, hcomp⟩ := hsim.step hleg hok
  cases hs''.symm.trans hstep
  refine ⟨hrun.snoc ⟨hstep, hleg, hok⟩, ?_⟩
  rw [List.foldl_append]
  refine ⟨htidy.next hen, lost + (if (ls.foldl (Lifecycle.next p) .boot).Keeps p l then 0 else 1), ?_, ?_⟩
  · have hone := Lifecycle.balance (p := p) htidy hen
    show s'.accepted = s'.completed + ((ls.foldl (Lifecycle.next p) .boot).next p l).pending + _
    omega
  · rw [Run.guarded_snoc_iff hrun.unguard hstep, ← hlost]
    have hkept : drivenKept p s l ↔ (ls.foldl (Lifecycle.next p) .boot).Keeps p l :=
      ⟨fun h => hsim.taskKept_iff.mp h.2, fun h => ⟨⟨hleg, hok⟩, hsim.taskKept_iff.mpr h⟩⟩
    rw [hkept]
    split
    · rename_i hk; simp [hk]
    · rename_i hk; simp [hk]

/-- **Tasks are exactly-once in the runs that keep them, and only there.**  In every run,
    completions never exceed the accepted tasks; whenever the device is at rest the two counters
    are equal if and only if every POWER_OFF of the run met `TaskKept`. -/
theorem tasks_exactly_once (p : VirtualDeviceParams) {ls : List Label} {s : Sys}
    (h : Run (Guarded (stepOf (Sys.step p)) (driven p)) .boot ls s) : s.completed ≤ s.accepted ∧
      (AtRest s.dev → (s.completed = s.accepted ↔
        Run (Guarded (stepOf (Sys.step p)) (drivenKept p)) .boot ls s)) := by
  obtain ⟨lost, hbal, hlost⟩ := run_balance h
  refine ⟨by omega, fun hrest => ?_⟩
  have hpend := (run_simulates h).pending_of_atRest hrest
  rw [← hlost]
  constructor <;> intro heq <;> omega

/-- `tasks_exactly_once` along a power failure in the middle of a task: the task restarts after
    the re-initialisation and completes once. -/
theorem tasks_exactly_once_power_failure : ∃ s, exec (guardFn (Sys.step demoParams) (driven demoParams)) .boot
        [.powerOff 0, .powerOn 0, .access 1 writeInit, .fireInit 6, .access 7 writeActivate,
          .powerOff 8, .powerOn 9, .fireInit 14, .fireInterrupt 24] = some s ∧
      s.accepted = 1 ∧ s.completed ≤ s.accepted := by
  refine exec_observe Sys.accepted 1 (by decide +kernel) fun s hs hacc => ?_
  exact ⟨hacc, (tasks_exactly_once demoParams (exec_guardFn_iff.mp hs)).1⟩

/-- **Where a task is lost**: a second power failure during the re-initialisation.  The device
    ends up READY and IDLE with nothing scheduled; one task was accepted, none completed. -/
theorem power_failure_in_reinit_loses_task :
    ∃ s, Run (Guarded (stepOf (Sys.step demoParams)) (driven demoParams)) .boot
        [.powerOff 0, .powerOn 0, .access 1 writeInit, .fireInit 6, .access 7 writeActivate,
          .powerOff 8, .powerOn 9, .powerOff 10, .powerOn 11, .fireInit 16] s ∧
      AtRest s.dev ∧ s.accepted = 1 ∧ s.completed = 0 := by
  refine run_observe (fun s => (s.dev.has .ready, s.dev.has .idle, s.dev.eventInit.scheduled,
          s.dev.eventInterrupt.scheduled, s.accepted, s.completed))
    (true, true, false, false, 1, 0) (by decide +kernel) fun s hs hobs => ?_
  simp only [Prod.mk.injEq] at hobs
  obtain ⟨hready, hidle, hinit, htask, hacc, hcomp⟩ := hobs
  exact ⟨⟨hready, hidle, hinit, htask⟩, hacc, hcomp⟩

end NvpSim.Vdev
