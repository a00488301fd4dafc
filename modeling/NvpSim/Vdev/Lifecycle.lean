/-
  What the virtual device is FOR: the life cycle of a peripheral across power failures.

  The source spreads one small machine over a status byte, two events and two recovery words.  `Phase` is that
  machine: a device is off, raw (powered but not initialised), initialising until a tick, idle, or working until
  a tick.

  The runs are those of a `Sys`: the device, the last power message, the clock, and two counters of tasks.
-/
import NvpSim.Vdev.Device
import NvpSim.Lib.Run

namespace NvpSim.Vdev

open NvpSim.Sim NvpSim.Lib NvpSim.Energy

/-! ## Labels, and the system a device runs in -/

/-- What happens to a device, and when. -/
inductive Label where
  | powerOff (t : Tick)
  | powerOn (t : Tick)
  | access (t : Tick) (pkt : Packet)
  | fireInit (t : Tick)
  | fireInterrupt (t : Tick)

/-- The tick of a label. -/
def Label.tick : Label → Tick
  | powerOff t | powerOn t | access t _ | fireInit t | fireInterrupt t => t

/-- The last power message: none yet, POWER_OFF or POWER_ON. -/
inductive Power where
  | boot
  | off
  | on
  deriving DecidableEq, Repr

/-- The two commands of the first byte. -/
inductive Command where
  | init
  | activate
  deriving DecidableEq, Repr

/-- The command a packet carries: the byte written at offset 0, INIT before ACTIVATE. -/
def command (p : VirtualDeviceParams) : Packet → Option Command
  | .read _ _ => none
  | .write addr data =>
    if addr - p.rangeStart = 0 then
      if hasFlag (data.getD 0 0#8) Flag.init.mask then some .init
      else if hasFlag (data.getD 0 0#8) Flag.activate.mask then some .activate
      else none
    else none

/-- The packet lies inside the device's address range. -/
def InRange (p : VirtualDeviceParams) : Packet → Prop
  | .read addr size => p.rangeStart ≤ addr ∧ addr + size ≤ p.rangeStart + p.rangeSize
  | .write addr data =>
    p.rangeStart ≤ addr ∧ addr + data.length ≤ p.rangeStart + p.rangeSize ∧ data ≠ []

instance (p : VirtualDeviceParams) (pkt : Packet) : Decidable (InRange p pkt) :=
  match pkt with
  | .read _ _ => inferInstanceAs (Decidable (_ ∧ _))
  | .write _ _ => inferInstanceAs (Decidable (_ ∧ _ ∧ _))

/-- A device in its environment, with the tasks accepted and completed so far. -/
structure Sys where
  dev : VirtualDevice
  power : Power
  curTick : Tick
  accepted : Nat
  completed : Nat

namespace Sys

/-- After construction, before the first power message. -/
def boot : Sys := ⟨.new, .boot, 0, 0, 0⟩

/-- The packet is an ACTIVATE command that `access` does not discard. -/
def accepts (p : VirtualDeviceParams) (d : VirtualDevice) (pkt : Packet) : Bool :=
  command p pkt = some .activate && !d.has .chaos && !d.has .busy

/-- `triggerInterrupt` takes its actuation branch. -/
def completes (d : VirtualDevice) : Bool := !d.has .chaos

/-- One label.  The queue clears the flag of an event before it calls the handler. -/
def step (p : VirtualDeviceParams) (s : Sys) : Label → Option Sys
  | .powerOff t =>
    (s.dev.handleMsg p t ⟨SimpleEnergySM.MsgType.powerOff.toInt, 0⟩).map (fun r =>
      { s with dev := r.1, power := .off, curTick := t })
  | .powerOn t =>
    (s.dev.handleMsg p t ⟨SimpleEnergySM.MsgType.powerOn.toInt, 0⟩).map (fun r =>
      { s with dev := r.1, power := .on, curTick := t })
  | .access t pkt =>
    (s.dev.access p t pkt).map (fun r =>
      { s with
        dev := r.1
        curTick := t
        accepted := s.accepted + (accepts p s.dev pkt).toNat })
  | .fireInit t =>
    let d := { s.dev with eventInit := s.dev.eventInit.fired }
    (d.triggerInterrupt p t).map (fun d =>
      { s with dev := d, curTick := t, completed := s.completed + (completes s.dev).toNat })
  | .fireInterrupt t =>
    let d := { s.dev with eventInterrupt := s.dev.eventInterrupt.fired }
    (d.triggerInterrupt p t).map (fun d =>
      { s with dev := d, curTick := t, completed := s.completed + (completes s.dev).toNat })

/-- The clock moves forward and not past an event that is still to fire. -/
def OnTime (s : Sys) (t : Tick) : Prop :=
  s.curTick ≤ t ∧ (s.dev.eventInit.scheduled = true → t ≤ s.dev.eventInit.when) ∧
    (s.dev.eventInterrupt.scheduled = true → t ≤ s.dev.eventInterrupt.when)

instance (s : Sys) (t : Tick) : Decidable (s.OnTime t) :=
  inferInstanceAs (Decidable (_ ∧ _ ∧ _))

/-- The labels the environment can produce in a state. -/
def Legal (p : VirtualDeviceParams) (s : Sys) (l : Label) : Prop :=
  s.OnTime l.tick ∧
    match l with
    | .powerOff _ => s.power ≠ .off
    | .powerOn _ => s.power = .off
    | .access _ pkt => s.power = .on ∧ InRange p pkt
    | .fireInit t => s.dev.eventInit.scheduled = true ∧ s.dev.eventInit.when = t
    | .fireInterrupt t => s.dev.eventInterrupt.scheduled = true ∧ s.dev.eventInterrupt.when = t

instance (p : VirtualDeviceParams) (s : Sys) (l : Label) : Decidable (s.Legal p l) :=
  match l with
  | .powerOff _ => inferInstanceAs (Decidable (_ ∧ _))
  | .powerOn _ => inferInstanceAs (Decidable (_ ∧ _))
  | .access _ _ => inferInstanceAs (Decidable (_ ∧ _ ∧ _))
  | .fireInit _ => inferInstanceAs (Decidable (_ ∧ _ ∧ _))
  | .fireInterrupt _ => inferInstanceAs (Decidable (_ ∧ _ ∧ _))

/-- INIT is not written to a device that is ready and not busy. -/
def InitOk (p : VirtualDeviceParams) (s : Sys) : Label → Prop
  | .access _ pkt =>
    command p pkt = some .init → ¬ (s.dev.has .ready = true ∧ s.dev.has .busy = false)
  | _ => True

instance (p : VirtualDeviceParams) (s : Sys) (l : Label) : Decidable (s.InitOk p l) :=
  match l with
  | .access _ _ => inferInstanceAs (Decidable (_ → _))
  | .powerOff _ | .powerOn _ | .fireInit _ | .fireInterrupt _ => inferInstanceAs (Decidable True)

end Sys

/-! ## The abstract life cycle -/

/-- Where a peripheral is in its life. -/
inductive Phase where
  | boot
  | off
  | raw
  | initialising (w : Tick)
  | idle
  | working (w : Tick)
  deriving DecidableEq, Repr

namespace Phase

/-- Uninitialised after a power message. -/
def chaos : Phase → Bool
  | off | raw | initialising _ => true
  | boot | idle | working _ => false

def ready : Phase → Bool
  | idle | working _ => true
  | boot | off | raw | initialising _ => false

def busy : Phase → Bool
  | initialising _ | working _ => true
  | boot | off | raw | idle => false

/-- When the initialisation completes. -/
def initAt : Phase → Option Tick
  | initialising w => some w
  | boot | off | raw | idle | working _ => none

/-- When the task completes. -/
def taskAt : Phase → Option Tick
  | working w => some w
  | boot | off | raw | initialising _ | idle => none

def power : Phase → Power
  | boot => .boot
  | off => .off
  | raw | initialising _ | idle | working _ => .on

end Phase

/-- A peripheral's phase, and what it remembers across a power failure. -/
structure Lifecycle where
  phase : Phase
  needRecover : Bool
  delayRemained : Tick

namespace Lifecycle

/-- How each input moves the life cycle. -/
def next (p : VirtualDeviceParams) (a : Lifecycle) : Label → Lifecycle
  | .powerOff t =>
    match a.phase with
    | .boot | .off | .raw => { a with phase := .off }
    | .initialising _ | .idle => ⟨.off, true, 0⟩
    | .working w => ⟨.off, true, if p.isInterruptable then w - t else p.delaySelf⟩
  | .powerOn t =>
    { a with phase := if a.needRecover then .initialising (t + p.delaySet) else .raw }
  | .access t pkt =>
    match command p pkt, a.phase with
    | some .init, .raw => { a with phase := .initialising (t + p.delaySet) }
    | some .activate, .idle => { a with phase := .working (t + p.delaySelf) }
    | _, _ => a
  | .fireInit t =>
    { a with phase := if 0 < a.delayRemained then .working (t + a.delayRemained) else .idle }
  | .fireInterrupt _ => { a with phase := .idle, delayRemained := 0 }

/-- Before the first power message. -/
def boot : Lifecycle := ⟨.boot, false, 0⟩

end Lifecycle

/-- The device's byte, events and recovery words are those of the life cycle `a`. -/
structure Shows (d : VirtualDevice) (a : Lifecycle) : Prop where
  chaos : d.has .chaos = a.phase.chaos
  ready : d.has .ready = a.phase.ready
  busy : d.has .busy = a.phase.busy
  idle : a.phase = .idle → d.has .idle = true
  initDue : d.eventInit.due = a.phase.initAt
  taskDue : d.eventInterrupt.due = a.phase.taskAt
  needRecover : d.needRecover = a.needRecover
  delayRemained : d.delayRemained = a.delayRemained

/-! ## `access` by the command it carries -/

namespace VirtualDevice

variable {p : VirtualDeviceParams} {t : Tick} {pkt : Packet} (d : VirtualDevice)

theorem access_eq (pkt : Packet) : ∃ data,
    match command p pkt with
    | some .init => d.access p t pkt = (d.commandInit p t).map fun d => (d, data)
    | some .activate => d.access p t pkt = (d.commandActivate p t).map fun d => (d, data)
    | none => ∃ pmem, d.access p t pkt = some ({ d with pmem := pmem }, data) ∧
        pmem 0 = d.pmem 0 := by
  cases pkt with
  | read addr size => exact ⟨_, d.pmem, rfl, rfl⟩
  | write addr data =>
    refine ⟨data, ?_⟩
    simp only [command, access]
    by_cases hoff : addr - p.rangeStart = 0
    · rw [if_pos hoff, if_pos hoff]
      by_cases hI : hasFlag (data.getD 0 0#8) Flag.init.mask = true
      · rw [if_pos hI, if_pos hI]
      · rw [if_neg hI, if_neg hI]
        by_cases hA : hasFlag (data.getD 0 0#8) Flag.activate.mask = true
        · rw [if_pos hA, if_pos hA]
        · rw [if_neg hA, if_neg hA]
          exact ⟨d.pmem, rfl, rfl⟩
    · rw [if_neg hoff, if_neg hoff]
      exact ⟨_, rfl, if_neg fun hc => hoff (Nat.le_zero.mp hc.1)⟩

end VirtualDevice

/-! ## Each entry point, seen from the life cycle -/

namespace Shows

variable {p : VirtualDeviceParams} {d : VirtualDevice} {a : Lifecycle} {t : Tick}

theorem resetStatus (hi : d.eventInit.due = none) (ht : d.eventInterrupt.due = none) :
    Shows d.resetStatus ⟨.off, d.needRecover, d.delayRemained⟩ where
  chaos := by simp [VirtualDevice.resetStatus, Phase.chaos]
  ready := by simp [VirtualDevice.resetStatus, Phase.ready]
  busy := by simp [VirtualDevice.resetStatus, Phase.busy]
  idle := nofun
  initDue := hi
  taskDue := ht
  needRecover := rfl
  delayRemained := rfl

section

variable (h : Shows d a)

include h

theorem powerOff : ∃ d', d.powerOff p t = some d' ∧ Shows d' (a.next p (.powerOff t)) := by
  obtain ⟨φ, nr, dr⟩ := a
  obtain ⟨-, hr, hb, -, hi, ht, hn, hd⟩ := h
  unfold VirtualDevice.powerOff
  cases φ with
  | boot | off | raw =>
    -- neither ready nor busy: there is nothing to drop
    refine ⟨_, by simp [hr, hb, Phase.ready, Phase.busy]; rfl, ?_⟩
    cases hn; cases hd
    exact resetStatus hi ht
  | idle =>
    refine ⟨_, by simp [hr, hb, Phase.ready, Phase.busy]; rfl, ?_⟩
    exact resetStatus hi ht
  | initialising w =>
    refine ⟨_, by
      simp [hr, hb, Phase.ready, Phase.busy, Event.deschedule_of_due_some hi]; rfl, ?_⟩
    exact resetStatus rfl ht
  | working w =>
    refine ⟨_, by
      simp [hr, hb, Phase.ready, Phase.busy, Event.deschedule_of_due_some ht]; rfl, ?_⟩
    have hshow := resetStatus (d := { d with
      eventInterrupt := ⟨w, false⟩, needRecover := true, vdevEnergyState := .powerOff
      delayRemained := if p.isInterruptable = false then p.delaySelf else w - t }) hi rfl
    cases hint : p.isInterruptable <;> simpa [Lifecycle.next, hint] using hshow

theorem powerOn (hoff : a.phase = .off) : ∃ d', d.powerOn p t = some d' ∧ Shows d' (a.next p (.powerOn t)) := by
  obtain ⟨φ, nr, dr⟩ := a
  cases hoff
  obtain ⟨hc, hr, hb, -, hi, ht, hn, hd⟩ := h
  unfold VirtualDevice.powerOn
  cases nr with
  | true =>
    refine ⟨_, by
      simp [hn, Event.schedule_of_due_none hi (Nat.le_add_right t p.delaySet)]; rfl, ?_⟩
    exact ⟨by simp [hc]; rfl, by simp [hr]; rfl, by simp; rfl, nofun, rfl, ht, rfl, hd⟩
  | false =>
    refine ⟨_, by simp [hn]; rfl, ?_⟩
    exact ⟨by simp [hc]; rfl, by simp [hr]; rfl, by simp; rfl, nofun, hi, ht, hn, hd⟩

theorem commandInit (hon : a.phase.power = .on) (hidle : a.phase ≠ .idle) : ∃ d', d.commandInit p t = some d' ∧
      Shows d' (if a.phase = .raw then { a with phase := .initialising (t + p.delaySet) } else a) := by
  obtain ⟨φ, nr, dr⟩ := a
  unfold VirtualDevice.commandInit
  cases φ with
  | boot | off => cases hon
  | idle => exact absurd rfl hidle
  | initialising w | working w => exact ⟨d, by simp [h.busy, Phase.busy], by simpa using h⟩
  | raw =>
    obtain ⟨hc, hr, hb, -, hi, ht, hn, hd⟩ := h
    refine ⟨_, by
      simp [hb, Phase.busy, Event.schedule_of_due_none hi (Nat.le_add_right t p.delaySet)]; rfl, ?_⟩
    exact ⟨by simp [hc]; rfl, by simp [hr]; rfl, by simp; rfl, nofun, rfl, ht, hn, hd⟩

theorem commandActivate (hon : a.phase.power = .on) : ∃ d', d.commandActivate p t = some d' ∧
      Shows d' (if a.phase = .idle then { a with phase := .working (t + p.delaySelf) } else a) := by
  obtain ⟨φ, nr, dr⟩ := a
  unfold VirtualDevice.commandActivate
  cases φ with
  | boot | off => cases hon
  | raw | initialising w => exact ⟨d, by simp [h.chaos, Phase.chaos], by simpa using h⟩
  | working w => exact ⟨d, by simp [h.chaos, h.busy, Phase.chaos, Phase.busy], by simpa using h⟩
  | idle =>
    obtain ⟨hc, hr, hb, -, hi, ht, hn, hd⟩ := h
    have hsched := Event.schedule_of_due_none ht (Nat.le_add_right t p.delaySelf)
    refine ⟨_, by simp [hc, hb, Phase.chaos, Phase.busy, hsched]; rfl, ?_⟩
    exact ⟨by simp [hc]; rfl, by simp [hr]; rfl, by simp; rfl, nofun, hi, rfl, hn, hd⟩

theorem fireInit {w : Tick} (hw : a.phase = .initialising w) :
    ∃ d', { d with eventInit := d.eventInit.fired }.triggerInterrupt p t = some d' ∧
      Shows d' (a.next p (.fireInit t)) := by
  obtain ⟨φ, nr, dr⟩ := a
  cases hw
  obtain ⟨hc, hr, hb, -, hi, ht, hn, hd⟩ := h
  unfold VirtualDevice.triggerInterrupt VirtualDevice.initReturn
  rcases Nat.eq_zero_or_pos dr with hzero | hpos
  · subst hzero
    refine ⟨_, by simp [hb, hc, hd, Phase.busy, Phase.chaos]; rfl, ?_⟩
    exact ⟨by simp; rfl, by simp; rfl, by simp; rfl, fun _ => by simp, rfl, ht, hn, rfl⟩
  · have hsched := Event.schedule_of_due_none ht (Nat.le_add_right t dr)
    refine ⟨_, by simp [hb, hc, hd, hpos, hsched, Phase.busy, Phase.chaos]; rfl, ?_⟩
    have hnext : Lifecycle.next p ⟨.initialising w, nr, dr⟩ (.fireInit t) =
        ⟨.working (t + dr), nr, dr⟩ := by simp [Lifecycle.next, hpos]
    rw [hnext]
    exact ⟨by simp; rfl, by simp; rfl, by simp; rfl, nofun, rfl, rfl, hn, rfl⟩

theorem fireInterrupt {w : Tick} (hw : a.phase = .working w) :
    ∃ d', { d with eventInterrupt := d.eventInterrupt.fired }.triggerInterrupt p t = some d' ∧
      Shows d' (a.next p (.fireInterrupt t)) := by
  obtain ⟨φ, nr, dr⟩ := a
  cases hw
  obtain ⟨hc, hr, hb, -, hi, ht, hn, hd⟩ := h
  unfold VirtualDevice.triggerInterrupt VirtualDevice.actuationReturn
  refine ⟨_, by simp [hb, hc, Phase.busy, Phase.chaos]; rfl, ?_⟩
  exact ⟨by simp [hc]; rfl, by simp [hr]; rfl, by simp; rfl, fun _ => by simp, hi, rfl, hn, rfl⟩

theorem access (hon : a.phase.power = .on) {pkt : Packet} (hinit : command p pkt = some .init → a.phase ≠ .idle) :
    ∃ r, d.access p t pkt = some r ∧ Shows r.1 (a.next p (.access t pkt)) := by
  obtain ⟨data, hacc⟩ := d.access_eq (p := p) (t := t) pkt
  cases hcmd : command p pkt with
  | none =>
    rw [hcmd] at hacc
    obtain ⟨pmem, hacc, hbyte⟩ := hacc
    have hflags : ∀ f, ({ d with pmem := pmem } : VirtualDevice).has f = d.has f :=
      VirtualDevice.has_of_byte hbyte
    have hnext : a.next p (.access t pkt) = a := by simp [Lifecycle.next, hcmd]
    rw [hnext]
    exact ⟨_, hacc, (hflags _).trans h.chaos, (hflags _).trans h.ready, (hflags _).trans h.busy,
      fun hi => (hflags _).trans (h.idle hi), h.initDue, h.taskDue, h.needRecover, h.delayRemained⟩
  | some c =>
    rw [hcmd] at hacc
    cases c with
    | init =>
      obtain ⟨d', hd', hshow⟩ := h.commandInit (p := p) (t := t) hon (hinit hcmd)
      refine ⟨(d', data), by rw [hacc, hd']; rfl, ?_⟩
      obtain ⟨φ, nr, dr⟩ := a
      cases φ <;> simpa [Lifecycle.next, hcmd] using hshow
    | activate =>
      obtain ⟨d', hd', hshow⟩ := h.commandActivate (p := p) (t := t) hon
      refine ⟨(d', data), by rw [hacc, hd']; rfl, ?_⟩
      obtain ⟨φ, nr, dr⟩ := a
      cases φ <;> simpa [Lifecycle.next, hcmd] using hshow

end

end Shows

/-! ## The simulation -/

namespace Lifecycle

/-- Tasks the life cycle accepts at a label: an ACTIVATE that finds the device idle. -/
def accepts (p : VirtualDeviceParams) (a : Lifecycle) : Label → Nat
  | .access _ pkt => if command p pkt = some .activate ∧ a.phase = .idle then 1 else 0
  | .powerOff _ | .powerOn _ | .fireInit _ | .fireInterrupt _ => 0

/-- Tasks that complete at a label. -/
def completes : Label → Nat
  | .fireInterrupt _ => 1
  | .powerOff _ | .powerOn _ | .access _ _ | .fireInit _ => 0

end Lifecycle

/-- The device shows the life cycle, and the last power message is the one of its phase. -/
structure Simulates (s : Sys) (a : Lifecycle) : Prop where
  dev : Shows s.dev a
  power : s.power = a.phase.power

namespace Simulates

variable {p : VirtualDeviceParams} {s : Sys} {a : Lifecycle} {l : Label}

theorem boot : Simulates .boot .boot :=
  ⟨⟨by decide, by decide, by decide, nofun, rfl, rfl, rfl, rfl⟩, rfl⟩

section

variable (h : Simulates s a)

include h

theorem phase_of_fireInit {t : Tick} (hleg : s.Legal p (.fireInit t)) : a.phase = .initialising t := by
  have hdue : s.dev.eventInit.due = some t := Event.due_eq_some.mpr hleg.2
  rw [h.dev.initDue] at hdue
  cases hφ : a.phase <;> rw [hφ] at hdue <;> cases hdue
  rfl

theorem phase_of_fireInterrupt {t : Tick} (hleg : s.Legal p (.fireInterrupt t)) : a.phase = .working t := by
  have hdue : s.dev.eventInterrupt.due = some t := Event.due_eq_some.mpr hleg.2
  rw [h.dev.taskDue] at hdue
  cases hφ : a.phase <;> rw [hφ] at hdue <;> cases hdue
  rfl

theorem idle_iff : (s.dev.has .ready = true ∧ s.dev.has .busy = false) ↔ a.phase = .idle := by
  rw [h.dev.ready, h.dev.busy]
  cases a.phase <;> simp [Phase.ready, Phase.busy]

theorem accepts_eq {t : Tick} {pkt : Packet} (hon : a.phase.power = .on) :
    (Sys.accepts p s.dev pkt).toNat = a.accepts p (.access t pkt) := by
  unfold Sys.accepts Lifecycle.accepts
  rw [h.dev.chaos, h.dev.busy]
  by_cases hcmd : command p pkt = some .activate
  · obtain ⟨φ, nr, dr⟩ := a
    cases φ with
    | boot | off => cases hon
    | raw | initialising _ | idle | working _ => simp [hcmd, Phase.chaos, Phase.busy]
  · simp [hcmd]

/-- **One step of the simulation.**  A legal label with `InitOk` fails no assertion, moves the
    device as it moves the life cycle, and counts the tasks the life cycle counts. -/
theorem step (hleg : s.Legal p l) (hok : s.InitOk p l) :
    ∃ s', s.step p l = some s' ∧ Simulates s' (a.next p l) ∧ s'.curTick = l.tick ∧
      s'.accepted = s.accepted + a.accepts p l ∧ s'.completed = s.completed + Lifecycle.completes l := by
  cases l with
  | powerOff t =>
    obtain ⟨d', hd', hshow⟩ := h.dev.powerOff (p := p) (t := t)
    refine ⟨{ s with dev := d', power := .off, curTick := t },
      by simp [Sys.step, VirtualDevice.handleMsg, hd'], ⟨hshow, ?_⟩, rfl, rfl, rfl⟩
    cases hφ : a.phase <;> simp [Lifecycle.next, hφ, Phase.power]
  | powerOn t =>
    have hoff : a.phase = .off := by
      have hpow := h.power.symm.trans hleg.2
      cases hφ : a.phase with
      | off => rfl
      | boot | raw | initialising _ | idle | working _ => rw [hφ] at hpow; cases hpow
    obtain ⟨d', hd', hshow⟩ := h.dev.powerOn (p := p) (t := t) hoff
    refine ⟨{ s with dev := d', power := .on, curTick := t },
      by simp [Sys.step, VirtualDevice.handleMsg, SimpleEnergySM.MsgType.toInt, hd'],
      ⟨hshow, ?_⟩, rfl, rfl, rfl⟩
    cases hnr : a.needRecover <;> simp [Lifecycle.next, hnr, Phase.power]
  | access t pkt =>
    have hon : a.phase.power = .on := h.power.symm.trans hleg.2.1
    obtain ⟨r, hr, hshow⟩ := h.dev.access (t := t) hon (fun hc hidle => hok hc (h.idle_iff.mpr hidle))
    refine ⟨_, Option.map_eq_some_iff.mpr ⟨r, hr, rfl⟩, ⟨hshow, ?_⟩, rfl, ?_, rfl⟩
    · show s.power = _
      rw [hleg.2.1, eq_comm]
      obtain ⟨φ, nr, dr⟩ := a
      cases hc : command p pkt with
      | none => simpa [Lifecycle.next, hc] using hon
      | some c =>
        cases φ with
        | boot | off => cases hon
        | raw | initialising _ | idle | working _ =>
          cases c <;> simp [Lifecycle.next, hc, Phase.power]
    · exact congrArg (s.accepted + ·) (h.accepts_eq hon)
  | fireInit t =>
    have hφ := h.phase_of_fireInit hleg
    obtain ⟨d', hd', hshow⟩ := h.dev.fireInit (p := p) (t := t) hφ
    refine ⟨_, Option.map_eq_some_iff.mpr ⟨d', hd', rfl⟩, ⟨hshow, ?_⟩, rfl, rfl, ?_⟩
    · show s.power = _
      rw [h.power, hφ]
      by_cases hpos : 0 < a.delayRemained <;> simp [Lifecycle.next, hpos, Phase.power]
    · simp [Sys.completes, h.dev.chaos, hφ, Phase.chaos, Lifecycle.completes]
  | fireInterrupt t =>
    have hφ := h.phase_of_fireInterrupt hleg
    obtain ⟨d', hd', hshow⟩ := h.dev.fireInterrupt (p := p) (t := t) hφ
    refine ⟨_, Option.map_eq_some_iff.mpr ⟨d', hd', rfl⟩, ⟨hshow, ?_⟩, rfl, rfl, ?_⟩
    · show s.power = _
      rw [h.power, hφ]
      rfl
    · simp [Sys.completes, h.dev.chaos, hφ, Phase.chaos, Lifecycle.completes]

end

end Simulates

/-- **The device simulates its life cycle** along every run that never writes INIT to a ready idle
    device. -/
theorem run_simulates {p : VirtualDeviceParams} {ls : List Label} {s : Sys}
    (h : Run (Guarded (stepOf (Sys.step p)) (fun s l => s.Legal p l ∧ s.InitOk p l)) .boot ls s) :
    Simulates s (ls.foldl (Lifecycle.next p) .boot) := by
  refine h.inv_hist (P := fun ls s => Simulates s (ls.foldl (Lifecycle.next p) .boot)) ?_ Simulates.boot
  rintro ls s l s' hsim ⟨hstep, hleg, hok⟩
  obtain ⟨s'', hs'', hsim', -⟩ := hsim.step hleg hok
  cases hs''.symm.trans hstep
  rw [List.foldl_append]
  exact hsim'

end NvpSim.Vdev
