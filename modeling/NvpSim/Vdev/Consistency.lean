/-
  The status byte against the events.

  `Consistent` is the contract a driver relies on: BUSY is set exactly while one of the two events is scheduled,
  and READY tells which one.  Every assertion of the device is a consequence of it.

  `access` discards INIT only while BUSY; on a device that is READY and idle it schedules `event_init` and sets
  BUSY, and the byte now says that a TASK is running.
-/
import NvpSim.Vdev.Lifecycle

namespace NvpSim.Vdev

open NvpSim.Sim NvpSim.Lib Option

/-- BUSY is set iff exactly one event is scheduled; with READY it is the task's event, without
    READY the initialisation's. -/
structure Consistent (d : VirtualDevice) : Prop where
  busy_iff : d.has .busy = true ↔ (d.eventInit.scheduled != d.eventInterrupt.scheduled) = true
  ready_busy : d.has .ready = true → d.has .busy = true →
    d.eventInterrupt.scheduled = true ∧ d.eventInit.scheduled = false
  not_ready_busy : d.has .ready = false → d.has .busy = true →
    d.eventInit.scheduled = true ∧ d.eventInterrupt.scheduled = false

theorem Shows.consistent {d : VirtualDevice} {a : Lifecycle} (h : Shows d a) : Consistent d := by
  have hi : d.eventInit.scheduled = a.phase.initAt.isSome := by
    rw [← h.initDue, Event.due]; cases d.eventInit.scheduled <;> rfl
  have ht : d.eventInterrupt.scheduled = a.phase.taskAt.isSome := by
    rw [← h.taskDue, Event.due]; cases d.eventInterrupt.scheduled <;> rfl
  constructor <;> rw [h.busy, hi, ht] <;> try rw [h.ready]
  all_goals cases a.phase <;> simp [Phase.ready, Phase.busy, Phase.initAt, Phase.taskAt]

theorem not_consistent_of_reinit {p : VirtualDeviceParams} {s s' : Sys} {a : Lifecycle} {t : Tick}
    {pkt : Packet} (h : Simulates s a) (hcmd : command p pkt = some .init)
    (hidle : s.dev.has .ready = true ∧ s.dev.has .busy = false)
    (hs : s.step p (.access t pkt) = some s') : ¬ Consistent s'.dev := by
  obtain ⟨r, hr, rfl⟩ := map_eq_some_iff.mp hs
  obtain ⟨data, hacc⟩ := s.dev.access_eq (p := p) (t := t) pkt
  rw [hcmd] at hacc
  obtain ⟨d', hd', rfl⟩ := map_eq_some_iff.mp (hacc.symm.trans hr)
  have hi : s.dev.eventInit.due = none := by
    rw [h.dev.initDue, h.idle_iff.mp hidle]; rfl
  have hsched := Event.schedule_of_due_none hi (Nat.le_add_right t p.delaySet)
  simp only [VirtualDevice.commandInit, hidle.2, Bool.false_eq_true, if_false,
    VirtualDevice.clear_frame, VirtualDevice.set_frame, hsched, map_some, Option.some.injEq] at hd'
  subst hd'
  intro hcons
  -- READY and BUSY promise that `event_init` is not scheduled, but it is
  have hbad := (hcons.ready_busy (by simp [hidle.1]) (by simp)).2
  cases hbad

/-- **The byte and the events agree in every run that meets `InitOk`**, and exactly then: in each
    state such a run reaches the device is consistent, and a legal next step fails no assertion
    and keeps it consistent if and only if it does not write INIT to a ready idle device. -/
theorem status_consistent (p : VirtualDeviceParams) {ls : List Label} {s : Sys}
    (h : Run (Guarded (stepOf (Sys.step p)) (fun s l => s.Legal p l ∧ s.InitOk p l)) .boot ls s) : Consistent s.dev ∧
      ∀ l, s.Legal p l → ((∃ s', s.step p l = some s' ∧ Consistent s'.dev) ↔ s.InitOk p l) := by
  have hsim := run_simulates h
  refine ⟨hsim.dev.consistent, fun l hleg => ⟨?_, ?_⟩⟩
  · rintro ⟨s', hs', hcons⟩
    cases l with
    | access t pkt => exact fun hcmd hidle => not_consistent_of_reinit hsim hcmd hidle hs' hcons
    | powerOff t | powerOn t | fireInit t | fireInterrupt t => trivial
  · intro hok
    obtain ⟨s', hs', hsim', -⟩ := hsim.step hleg hok
    exact ⟨s', hs', hsim'.dev.consistent⟩

/-- A device with an initialisation of 5 ticks and a task of 10, both restarted from scratch. -/
def demoParams : VirtualDeviceParams where
  id := 0
  needLog := false
  rangeStart := 0x100
  rangeSize := 8
  delaySet := 5
  delaySelf := 10
  delayCpuInterrupt := 1
  isInterruptable := false

/-- The driver writes INIT, or ACTIVATE, to the first byte of the demo device. -/
def writeInit : Packet := .write 0x100 [0x80#8]
def writeActivate : Packet := .write 0x100 [0x40#8]

/-- `status_consistent` along a power failure in the middle of a task. -/
theorem status_consistent_power_failure :
    ∃ s, exec (guardFn (Sys.step demoParams) (fun s l => s.Legal demoParams l ∧ s.InitOk demoParams l))
        .boot [.powerOff 0, .powerOn 0, .access 1 writeInit, .fireInit 6, .access 7 writeActivate,
          .powerOff 8, .powerOn 9] = some s ∧ s.dev.eventInit.due = some 14 ∧ Consistent s.dev := by
  refine exec_observe (fun s => s.dev.eventInit.due) (some 14) (by decide +kernel) fun s hs hdue => ?_
  exact ⟨hdue, (status_consistent demoParams (exec_guardFn_iff.mp hs)).1⟩

/-- **Where it breaks**: INIT twice, with the device idle in between.  The byte says that a task is
    running, and the legal POWER_OFF that follows fails the device's own assertion. -/
theorem reinit_then_power_off_asserts : ∃ s, Run (Guarded (stepOf (Sys.step demoParams)) (Sys.Legal demoParams)) .boot
        [.powerOff 0, .powerOn 0, .access 1 writeInit, .fireInit 6, .access 7 writeInit] s ∧
      ¬ Consistent s.dev ∧ s.Legal demoParams (.powerOff 8) ∧ s.step demoParams (.powerOff 8) = none := by
  refine run_observe (fun s => (s.dev.has .ready, s.dev.has .busy, s.dev.eventInit.scheduled,
          decide (s.Legal demoParams (.powerOff 8)), (s.step demoParams (.powerOff 8)).isNone))
    (true, true, true, true, true) (by decide +kernel) fun s hs hobs => ?_
  simp only [Prod.mk.injEq, decide_eq_true_eq, isNone_iff_eq_none] at hobs
  obtain ⟨hready, hbusy, hinit, hleg, hnone⟩ := hobs
  refine ⟨?_, hleg, hnone⟩
  intro hcons
  have hbad := (hcons.ready_busy hready hbusy).2
  rw [hinit] at hbad
  cases hbad

end NvpSim.Vdev
