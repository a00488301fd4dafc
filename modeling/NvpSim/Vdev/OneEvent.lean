/-
  One event per busy device.

  BUSY is set exactly while one of the two events is scheduled, and never are both (`OneEvent`).

  A command that is accepted schedules the event that belongs to it (`Accessed.oneEvent`); POWER_OFF drops it, and
  notes whether the device has to recover (`powerOff_spec`); POWER_ON schedules the initialisation of a device that
  has to (`powerOn_spec`).  Every legal run keeps `OneEvent` (`engaged_of_run`).  The exception is a device that was
  told to INIT when it was ready: its byte says that a task is running, and POWER_OFF looks at the byte.
-/
import NvpSim.Vdev.Consistency

namespace NvpSim.Vdev

open NvpSim.Sim NvpSim.Lib NvpSim.Energy Option

/-- A device that will recover after a power failure: it is or was initialised, or it is being
    initialised. -/
def recovers (d : VirtualDevice) : Bool := d.needRecover || d.has .ready || d.has .busy

/-- A device that has been told to initialise when it was ready: the byte says that a task is
    running. -/
def reinitialising (d : VirtualDevice) : Bool :=
  d.has .ready && d.has .busy && d.eventInit.scheduled

/-- A device that is BUSY has one event, and one that is not has none. -/
structure OneEvent (d : VirtualDevice) : Prop where
  idle : d.has .busy = false → d.eventInit.scheduled = false ∧ d.eventInterrupt.scheduled = false
  busy : d.has .busy = true → d.eventInterrupt.scheduled = !d.eventInit.scheduled
  not_ready : d.has .ready = false → d.has .busy = true → d.eventInit.scheduled = true

namespace OneEvent

variable {d : VirtualDevice}

section

variable (h : OneEvent d)

include h

/-- The two events are never scheduled at once. -/
theorem not_both : (d.eventInit.scheduled && d.eventInterrupt.scheduled) = false := by
  cases hbusy : d.has .busy with
  | false => rw [(h.idle hbusy).1, Bool.false_and]
  | true => rw [h.busy hbusy, Bool.and_not_self]

theorem task_of_init (hinit : d.eventInit.scheduled = true) : d.eventInterrupt.scheduled = false := by
  have hboth := h.not_both
  rwa [hinit, Bool.true_and] at hboth

theorem init_of_task (htask : d.eventInterrupt.scheduled = true) : d.eventInit.scheduled = false := by
  have hboth := h.not_both
  rwa [htask, Bool.and_true] at hboth

/-- A device with an event is BUSY. -/
theorem busy_of_scheduled
    (hsched : d.eventInit.scheduled = true ∨ d.eventInterrupt.scheduled = true) : d.has .busy = true := by
  by_contra hbusy
  obtain ⟨hinit, htask⟩ := h.idle (Bool.eq_false_iff.mpr hbusy)
  rw [hinit, htask] at hsched
  rcases hsched with hsched | hsched <;> cases hsched

theorem ready_of_task (htask : d.eventInterrupt.scheduled = true) : d.has .ready = true := by
  by_contra hready
  have hinit := h.not_ready (Bool.eq_false_iff.mpr hready) (h.busy_of_scheduled (Or.inr htask))
  rw [h.init_of_task htask] at hinit
  cases hinit

end

end OneEvent

section

variable {p : VirtualDeviceParams} {t : Tick} {d d' : VirtualDevice}

/-! ## `access` -/

/-- The packet is a command that `access` does not discard. -/
def accepted (p : VirtualDeviceParams) (d : VirtualDevice) (pkt : Packet) : Bool :=
  match command p pkt with
  | some .init => !d.has .busy
  | some .activate => !d.has .chaos && !d.has .busy
  | none => false

/-- What an access that goes through does: nothing to the flags and the events, or it schedules one
    event and sets BUSY. -/
inductive Accessed (p : VirtualDeviceParams) (pkt : Packet) (d d' : VirtualDevice) : Prop where
  | other (hno : accepted p d pkt = false) (hflags : ∀ f, d'.has f = d.has f)
      (hinit : d'.eventInit = d.eventInit) (htask : d'.eventInterrupt = d.eventInterrupt)
      (henergy : d'.vdevEnergyState = d.vdevEnergyState)
  | init (hyes : accepted p d pkt = true) (hidle : d.has .busy = false)
      (hflags : ∀ f, d'.has f = ((d.set .busy).clear .idle).has f)
      (hinit : d'.eventInit.scheduled = true) (htask : d'.eventInterrupt = d.eventInterrupt)
      (henergy : d'.vdevEnergyState = .normal)
  | activate (hyes : accepted p d pkt = true) (hidle : d.has .busy = false)
      (hchaos : d.has .chaos = false) (hflags : ∀ f, d'.has f = ((d.set .busy).clear .idle).has f)
      (hinit : d'.eventInit = d.eventInit) (htask : d'.eventInterrupt.scheduled = true)
      (henergy : d'.vdevEnergyState = .active)

variable {pkt : Packet}

/-- What an access does: a command is accepted, or no event and no flag changes. -/
theorem accessed {data : List (BitVec 8)} (hs : d.access p t pkt = some (d', data)) : Accessed p pkt d d' := by
  obtain ⟨data₁, hacc⟩ := d.access_eq (p := p) (t := t) pkt
  cases hcmd : command p pkt with
  | none =>
    rw [hcmd] at hacc
    obtain ⟨pmem, hacc, hbyte⟩ := hacc
    cases hacc.symm.trans hs
    exact .other (by simp [accepted, hcmd]) (VirtualDevice.has_of_byte hbyte) rfl rfl rfl
  | some c =>
    rw [hcmd] at hacc
    cases c with
    | init =>
      obtain ⟨d₁, hd₁, heq⟩ := map_eq_some_iff.mp (hacc.symm.trans hs)
      cases heq
      unfold VirtualDevice.commandInit at hd₁
      split at hd₁
      · rename_i hbusy
        cases hd₁
        exact .other (by simp [accepted, hcmd, hbusy]) (fun _ => rfl) rfl rfl rfl
      · rename_i hbusy
        have hidle := Bool.eq_false_iff.mpr hbusy
        obtain ⟨e, he, rfl⟩ := map_eq_some_iff.mp hd₁
        obtain ⟨-, -, rfl⟩ := Event.schedule_eq_some.mp he
        exact .init (by simp [accepted, hcmd, hidle]) hidle (fun _ => rfl) rfl rfl rfl
    | activate =>
      obtain ⟨d₁, hd₁, heq⟩ := map_eq_some_iff.mp (hacc.symm.trans hs)
      cases heq
      unfold VirtualDevice.commandActivate at hd₁
      split at hd₁
      · rename_i hchaos
        cases hd₁
        exact .other (by simp [accepted, hcmd, hchaos]) (fun _ => rfl) rfl rfl rfl
      · rename_i hchaos
        have hchaos := Bool.eq_false_iff.mpr hchaos
        split at hd₁
        · rename_i hbusy
          cases hd₁
          exact .other (by simp [accepted, hcmd, hbusy]) (fun _ => rfl) rfl rfl rfl
        · rename_i hbusy
          have hidle := Bool.eq_false_iff.mpr hbusy
          obtain ⟨e, he, rfl⟩ := map_eq_some_iff.mp hd₁
          obtain ⟨-, -, rfl⟩ := Event.schedule_eq_some.mp he
          exact .activate (by simp [accepted, hcmd, hidle, hchaos]) hidle hchaos (fun _ => rfl) rfl rfl rfl

/-- An access leaves CHAOS and READY as they are. -/
theorem Accessed.keeps (h : Accessed p pkt d d') : d'.has .chaos = d.has .chaos ∧ d'.has .ready = d.has .ready := by
  cases h with
  | other _ hflags => exact ⟨hflags _, hflags _⟩
  | init _ _ hflags | activate _ _ _ hflags => exact ⟨by simp [hflags], by simp [hflags]⟩

/-- **A command that is accepted schedules the one event.** -/
theorem Accessed.oneEvent (h : Accessed p pkt d d') (hd : OneEvent d)
    (hknown : accepted p d pkt = true → d.has .chaos = false → d.has .ready = true) : OneEvent d' := by
  cases h with
  | other _ hflags hinit htask =>
    refine ⟨?_, ?_, ?_⟩
    · rw [hflags, hinit, htask]; exact hd.idle
    · rw [hflags, hinit, htask]; exact hd.busy
    · rw [hflags, hflags, hinit]; exact hd.not_ready
  | init _ hidle hflags hinit htask =>
    have hfree := (hd.idle hidle).2
    exact ⟨by simp [hflags], by simp [hinit, htask, hfree], fun _ _ => hinit⟩
  | activate hyes hidle hchaos hflags hinit htask =>
    have hfree := (hd.idle hidle).1
    have hready := hknown hyes hchaos
    exact ⟨by simp [hflags], by simp [hinit, htask, hfree], by simp [hflags, hready]⟩

/-- No assertion of an access fails. -/
theorem OneEvent.exists_access (h : OneEvent d) (p : VirtualDeviceParams) (t : Tick) (pkt : Packet) :
    ∃ r, d.access p t pkt = some r := by
  have hsched : ∀ {e : Event} {w : Tick}, e.scheduled = false → ∃ e', e.schedule t (t + w) = some e' :=
    fun hfree => ⟨_, Event.schedule_eq_some.mpr ⟨Nat.le_add_right .., hfree, rfl⟩⟩
  obtain ⟨data, hacc⟩ := d.access_eq (p := p) (t := t) pkt
  cases hcmd : command p pkt with
  | none =>
    rw [hcmd] at hacc
    obtain ⟨pmem, hacc, -⟩ := hacc
    exact ⟨_, hacc⟩
  | some c =>
    rw [hcmd] at hacc
    cases c with
    | init =>
      rw [hacc]
      unfold VirtualDevice.commandInit
      split
      · exact ⟨_, rfl⟩
      · rename_i hbusy
        obtain ⟨e, he⟩ := hsched (h.idle (Bool.eq_false_iff.mpr hbusy)).1
        exact ⟨_, map_eq_some_iff.mpr ⟨_, map_eq_some_iff.mpr ⟨e, he, rfl⟩, rfl⟩⟩
    | activate =>
      rw [hacc]
      unfold VirtualDevice.commandActivate
      split
      · exact ⟨_, rfl⟩
      · split
        · exact ⟨_, rfl⟩
        · rename_i hbusy
          obtain ⟨e, he⟩ := hsched (h.idle (Bool.eq_false_iff.mpr hbusy)).2
          exact ⟨_, map_eq_some_iff.mpr ⟨_, map_eq_some_iff.mpr ⟨e, he, rfl⟩, rfl⟩⟩

/-! ## The power messages -/

theorem resetStatus_spec (d : VirtualDevice) : d.resetStatus.has .busy = false ∧ d.resetStatus.has .chaos = true := by
  simp [VirtualDevice.resetStatus]

/-- **POWER_OFF** drops the event and notes whether the device has to recover; it calls nobody. -/
theorem powerOff_spec (p : VirtualDeviceParams) (t : Tick) (h : OneEvent d) (hbyte : reinitialising d = false) :
    ∃ d', d.powerOff p t = some d' ∧ (d'.has .busy = false ∧ d'.has .chaos = true) ∧
      d'.eventInit.scheduled = false ∧ d'.eventInterrupt.scheduled = false ∧
      d'.cpuCalls = d.cpuCalls ∧ d'.needRecover = recovers d := by
  unfold reinitialising at hbyte
  unfold recovers
  cases hbusy : d.has .busy with
  | false =>
    obtain ⟨hinit, htask⟩ := h.idle hbusy
    cases hready : d.has .ready with
    | false | true =>
      simp [VirtualDevice.powerOff, hready, hbusy]
      exact ⟨resetStatus_spec _, hinit, htask, rfl, rfl⟩
  | true =>
    have hone := h.busy hbusy
    cases hready : d.has .ready with
    | false =>
      have hinit := h.not_ready hready hbusy
      rw [hinit] at hone
      simp [VirtualDevice.powerOff, hready, hbusy, Event.deschedule, hinit]
      exact ⟨resetStatus_spec _, rfl, hone, rfl, rfl⟩
    | true =>
      rw [hready, hbusy] at hbyte
      have hinit : d.eventInit.scheduled = false := hbyte
      rw [hinit] at hone
      simp [VirtualDevice.powerOff, hready, hbusy, Event.deschedule, hone]
      exact ⟨resetStatus_spec _, hinit, rfl, rfl, rfl⟩

/-- **POWER_OFF fails** on a device that was told to INIT when it was ready: the event that it drops is not
    there. -/
theorem powerOff_of_reinitialising (h : OneEvent d) (hbyte : reinitialising d = true) : d.powerOff p t = none := by
  unfold reinitialising at hbyte
  rw [Bool.and_eq_true, Bool.and_eq_true] at hbyte
  obtain ⟨⟨hready, hbusy⟩, hinit⟩ := hbyte
  have htask : d.eventInterrupt.scheduled = false := by rw [h.busy hbusy, hinit]; rfl
  simp [VirtualDevice.powerOff, hready, hbusy, Event.deschedule, htask]

/-- **POWER_ON** schedules the initialisation of a device that has to recover. -/
theorem powerOn_spec (p : VirtualDeviceParams) (t : Tick) (hinit : d.eventInit.scheduled = false) :
    ∃ d', d.powerOn p t = some d' ∧ d'.cpuCalls = d.cpuCalls ++
      (if d.needRecover then [.virtualDeviceRecover p.devName p.delaySet, .virtualDeviceStart p.id]
        else []) := by
  unfold VirtualDevice.powerOn
  cases d.needRecover with
  | false => exact ⟨_, rfl, (List.append_nil _).symm⟩
  | true =>
    have hsched := Event.schedule_of_due_none (Event.due_eq_none.mpr hinit) (Nat.le_add_right t p.delaySet)
    rw [hsched]
    exact ⟨_, rfl, List.append_assoc ..⟩

theorem handleMsg_powerOff_eq (d : VirtualDevice) : d.handleMsg p t ⟨SimpleEnergySM.MsgType.powerOff.toInt, 0⟩ =
      (d.powerOff p t).map fun d => (d, 1) := rfl

theorem handleMsg_powerOn_eq (d : VirtualDevice) : d.handleMsg p t ⟨SimpleEnergySM.MsgType.powerOn.toInt, 0⟩ =
      (d.powerOn p t).map fun d => (d, 1) := rfl

/-! ## All legal runs -/

/-- What the legal runs keep: moreover a device is BUSY only with power, and known to be in chaos
    if it is not ready. -/
structure Engaged (power : Power) (d : VirtualDevice) : Prop extends OneEvent d where
  still : power ≠ .on → d.has .busy = false
  known : power ≠ .boot → d.has .chaos = false → d.has .ready = true

theorem Engaged.access {data : List (BitVec 8)} (h : Engaged .on d)
    (hs : d.access p t pkt = some (d', data)) : Engaged .on d' := by
  have hacc := accessed hs
  obtain ⟨hchaos, hready⟩ := hacc.keeps
  refine ⟨hacc.oneEvent h.toOneEvent (fun _ => h.known (by decide)), fun hne => absurd rfl hne, ?_⟩
  rw [hchaos, hready]
  exact h.known

/-- An event fires. -/
theorem Engaged.triggerInterrupt {power : Power} {e : VirtualDevice} (h : Engaged power d)
    (hfired : e.pmem = d.pmem ∧ e.eventInit.scheduled = false ∧
      e.eventInterrupt.scheduled = false) (hs : e.triggerInterrupt p t = some d') : Engaged power d' := by
  obtain ⟨hpmem, hinit, htask⟩ := hfired
  have hhas := VirtualDevice.has_of_byte (congrFun hpmem 0)
  unfold VirtualDevice.triggerInterrupt at hs
  split at hs
  case isFalse => cases hs
  case isTrue hbusy =>
    have hon : power = .on := by
      by_contra hne
      rw [hhas, h.still hne] at hbusy
      cases hbusy
    subst hon
    dsimp only at hs
    split at hs
    · unfold VirtualDevice.initReturn at hs
      dsimp only at hs
      split at hs
      · obtain ⟨ev, hev, rfl⟩ := map_eq_some_iff.mp hs
        obtain ⟨-, -, rfl⟩ := Event.schedule_eq_some.mp hev
        exact ⟨⟨by simp, by simp [hinit], by simp⟩, by simp, by simp⟩
      · cases hs
        exact ⟨⟨by simp [hinit, htask], by simp, by simp⟩, by simp, by simp⟩
    · rename_i hchaos
      cases hs
      have hready := h.known (by decide) (by rw [← hhas]; simpa using hchaos)
      unfold VirtualDevice.actuationReturn
      exact ⟨⟨by simp [hinit, htask], by simp, by simp⟩, by simp, by simp [hhas, hready]⟩

theorem Engaged.powerOff (h : OneEvent d) (hs : d.powerOff p t = some d') : Engaged .off d' := by
  cases hbyte : reinitialising d with
  | true =>
    rw [powerOff_of_reinitialising h hbyte] at hs
    cases hs
  | false =>
    obtain ⟨d₁, hd₁, ⟨hbusy, hchaos⟩, hinit, htask, -⟩ := powerOff_spec p t h hbyte
    cases hd₁.symm.trans hs
    exact ⟨⟨fun _ => ⟨hinit, htask⟩, by simp [hbusy], by simp [hbusy]⟩, fun _ => hbusy,
      by simp [hchaos]⟩

theorem Engaged.powerOn (h : Engaged .off d) (hs : d.powerOn p t = some d') : Engaged .on d' := by
  have hbusy := h.still (by decide)
  obtain ⟨hinit, htask⟩ := h.idle hbusy
  unfold VirtualDevice.powerOn at hs
  split at hs
  · obtain ⟨e, he, rfl⟩ := map_eq_some_iff.mp hs
    obtain ⟨-, -, rfl⟩ := Event.schedule_eq_some.mp he
    exact ⟨⟨by simp, by simp [htask], by simp⟩, by simp, by simpa using h.known⟩
  · cases hs
    exact ⟨⟨by simp [hinit, htask], by simp, by simp⟩, by simp, by simpa using h.known⟩

end

/-- **Every legal run keeps it**, with or without a second INIT. -/
theorem engaged_of_run {p : VirtualDeviceParams} {ls : List Label} {s : Sys}
    (h : Run (Guarded (stepOf (Sys.step p)) (Sys.Legal p)) .boot ls s) : Engaged s.power s.dev := by
  refine h.inv (P := fun s => Engaged s.power s.dev) ?_ ?_
  · rintro s l s' hs ⟨hstep, -, hleg⟩
    cases l with
    | powerOff t =>
      obtain ⟨r, hr, rfl⟩ := map_eq_some_iff.mp hstep
      obtain ⟨d', hd', rfl⟩ := map_eq_some_iff.mp hr
      exact Engaged.powerOff hs.toOneEvent hd'
    | powerOn t =>
      obtain ⟨r, hr, rfl⟩ := map_eq_some_iff.mp hstep
      obtain ⟨d', hd', rfl⟩ := map_eq_some_iff.mp hr
      have hoff : s.power = .off := hleg
      rw [hoff] at hs
      exact hs.powerOn hd'
    | access t pkt =>
      obtain ⟨r, hr, rfl⟩ := map_eq_some_iff.mp hstep
      have hon : s.power = .on := hleg.1
      rw [hon] at hs
      show Engaged s.power r.1
      rw [hon]
      exact hs.access hr
    | fireInit t =>
      obtain ⟨d', hd', rfl⟩ := map_eq_some_iff.mp hstep
      have htask := hs.toOneEvent.task_of_init hleg.1
      exact Engaged.triggerInterrupt (e := { s.dev with eventInit := s.dev.eventInit.fired }) hs ⟨rfl, rfl, htask⟩ hd'
    | fireInterrupt t =>
      obtain ⟨d', hd', rfl⟩ := map_eq_some_iff.mp hstep
      have hinit := hs.toOneEvent.init_of_task hleg.1
      exact Engaged.triggerInterrupt (e := { s.dev with eventInterrupt := s.dev.eventInterrupt.fired }) hs
        ⟨rfl, hinit, rfl⟩ hd'
  · exact ⟨⟨fun _ => ⟨rfl, rfl⟩, by decide, by decide⟩, by decide, by decide⟩

end NvpSim.Vdev
