/-
  The retention variant of the device (`vdev/vdev_ret.cc`), which takes its messages from an
  `SM_Retention`.

  POWER_RET drops the event of what is going on and notes in `need_recover` and `delay_remained` how to go on;
  POWER_ON wakes the device up.  POWER_OFF resets the status byte and does NOTHING else.  Four things go wrong:

    * POWER_OFF leaves the event of a busy device scheduled; it fires while the device is off and fails an
      assertion;
    * POWER_RET believes the byte: READY and BUSY mean a task.  After INIT to a ready device, or when a task with
      nothing left to do is woken up, it is `event_init` that is scheduled;
    * `need_recover` and `delay_remained` survive a POWER_OFF, so a later POWER_RET and POWER_ON restart a task on
      a device that is in chaos;
    * a command that comes while the device is off is accepted.

  `Benign` rules out these four (`retention_device_safe`).
-/
import NvpSim.Energy.Hysteresis
import NvpSim.Vdev.OneEvent

namespace NvpSim.Vdev.Retention

open NvpSim.Sim NvpSim.Lib NvpSim.Energy List Option

/-! ## The device -/

/-- The initialisation branch of `triggerInterrupt`. -/
def initReturn (p : VirtualDeviceParams) (curTick : Tick) (d : VirtualDevice) : Option VirtualDevice :=
  let d := (d.set .ready).clear .chaos
  let d := (d.call (.virtualDeviceInterrupt p.devName 0)).call (.virtualDeviceEnd p.id)
  if 0 < d.delayRemained then
    (d.eventInterrupt.schedule curTick (curTick + d.delayRemained)).map fun e =>
      let d := { { d with eventInterrupt := e }.set .busy with vdevEnergyState := .active }
      let d := d.call (.virtualDeviceRecover p.devName d.delayRemained)
      { d.call (.virtualDeviceStart p.id) with delayRemained := 0 }
  else some d

/-- `triggerInterrupt()`; the actuation branch is that of `vdev.cc`. -/
def triggerInterrupt (p : VirtualDeviceParams) (curTick : Tick) (d : VirtualDevice) : Option VirtualDevice :=
  if d.has .busy then
    let d := { (d.set .idle).clear .busy with vdevEnergyState := .normal }
    if d.has .chaos then initReturn p curTick d else some (d.actuationReturn p)
  else none

/-- POWER_OFF: restart from the very beginning. -/
def powerOff (d : VirtualDevice) : VirtualDevice :=
  { d with vdevEnergyState := .powerOff }.resetStatus

/-- POWER_RET, first part: drop what is going on and remember how to go on. -/
def dropTask (p : VirtualDeviceParams) (curTick : Tick) (d : VirtualDevice) : Option VirtualDevice :=
  -- ready but not busy: no task on working
  if d.has .ready ∧ ¬ d.has .busy then
    some { d with needRecover := false, delayRemained := 0 }
  -- not ready but busy: restart initialization
  else if ¬ d.has .ready ∧ d.has .busy then
    d.eventInit.deschedule.map fun e =>
      { d with eventInit := e, needRecover := true, delayRemained := 0 }
  -- ready and busy: restart task without reinitialization
  else if d.has .ready ∧ d.has .busy then
    d.eventInterrupt.deschedule.map fun e =>
      { d with
        eventInterrupt := e
        needRecover := true
        delayRemained := if ¬ p.isInterruptable then p.delaySelf else e.when - curTick }
  else some d

/-- POWER_RET: after that, sleep mode, not busy. -/
def powerRet (p : VirtualDeviceParams) (curTick : Tick) (d : VirtualDevice) : Option VirtualDevice :=
  (dropTask p curTick d).map fun d => { d with vdevEnergyState := .sleep }.clear .busy

/-- POWER_ON: go on after a retention; after a POWER_OFF wait for the CPU. -/
def powerOn (p : VirtualDeviceParams) (curTick : Tick) (d : VirtualDevice) : Option VirtualDevice :=
  if d.vdevEnergyState = .sleep then
    -- restart the disrupted initialization
    if d.needRecover ∧ d.delayRemained = 0 then
      (d.eventInit.schedule curTick (curTick + p.delaySet)).map fun e =>
        let d := { { d with eventInit := e }.set .busy with vdevEnergyState := .normal }
        (d.call (.virtualDeviceRecover p.devName p.delaySet)).call (.virtualDeviceStart p.id)
    -- restart the disrupted peripheral task
    else if d.needRecover ∧ 0 < d.delayRemained then
      (d.eventInterrupt.schedule curTick (curTick + d.delayRemained)).map fun e =>
        let d := { { d with eventInterrupt := e }.set .busy with vdevEnergyState := .active }
        let d := d.call (.virtualDeviceRecover p.devName d.delayRemained)
        { d.call (.virtualDeviceStart p.id) with delayRemained := 0 }
    else some { d with vdevEnergyState := .normal }
  else some d

/-- `handleMsg(msg)`: the device and the return code. -/
def handleMsg (p : VirtualDeviceParams) (curTick : Tick) (d : VirtualDevice) (msg : EnergyMsg) :
    Option (VirtualDevice × Int) :=
  if msg.type = SMRetention.MsgType.powerOff.toInt then some (powerOff d, 1)
  else if msg.type = SMRetention.MsgType.powerRet.toInt then
    (powerRet p curTick d).map fun d => (d, 1)
  else if msg.type = SMRetention.MsgType.powerOn.toInt then
    (powerOn p curTick d).map fun d => (d, 1)
  else some (d, 0)

/-! ## What each entry point does -/

section

variable {p : VirtualDeviceParams} {t : Tick} {d e : VirtualDevice}

@[simp] theorem call_vdevEnergyState (d : VirtualDevice) (c : CpuCall) :
    (d.call c).vdevEnergyState = d.vdevEnergyState := rfl

/-- The flags CHAOS and READY exclude each other. -/
def Known (d : VirtualDevice) : Prop := d.has .chaos = !d.has .ready

/-- What a handler leaves: one event for a busy device, none for one that sleeps. -/
structure Settled (d : VirtualDevice) : Prop extends OneEvent d where
  asleep : d.vdevEnergyState = .sleep → d.has .busy = false

theorem settled_of_idle (hbusy : d.has .busy = false) (hinit : d.eventInit.scheduled = false)
    (htask : d.eventInterrupt.scheduled = false) : Settled d :=
  ⟨⟨fun _ => ⟨hinit, htask⟩, by simp [hbusy], by simp [hbusy]⟩, fun _ => hbusy⟩

/-- **POWER_OFF** to a device that is not busy. -/
theorem powerOff_spec (h : OneEvent d) (hbusy : d.has .busy = false) :
    Settled (powerOff d) ∧ Known (powerOff d) ∧ (powerOff d).has .busy = false := by
  obtain ⟨hinit, htask⟩ := h.idle hbusy
  have hidle : (powerOff d).has .busy = false := by simp [powerOff, VirtualDevice.resetStatus]
  refine ⟨settled_of_idle hidle hinit htask, ?_, hidle⟩
  simp [Known, powerOff, VirtualDevice.resetStatus]

theorem dropTask_spec (p : VirtualDeviceParams) (t : Tick) (h : OneEvent d) (hbyte : reinitialising d = false) :
    ∃ d', dropTask p t d = some d' ∧ d'.pmem = d.pmem ∧ d'.eventInit.scheduled = false ∧
      d'.eventInterrupt.scheduled = false := by
  unfold reinitialising at hbyte
  unfold dropTask
  cases hbusy : d.has .busy with
  | false =>
    obtain ⟨hinit, htask⟩ := h.idle hbusy
    cases d.has .ready with
    | false => exact ⟨d, rfl, rfl, hinit, htask⟩
    | true => exact ⟨_, rfl, rfl, hinit, htask⟩
  | true =>
    have hone := h.busy hbusy
    cases hready : d.has .ready with
    | false =>
      have hinit := h.not_ready hready hbusy
      rw [hinit] at hone
      rw [if_neg (by simp), Event.deschedule_eq_some.mpr ⟨hinit, rfl⟩]
      exact ⟨_, rfl, rfl, rfl, hone⟩
    | true =>
      rw [hready, hbusy] at hbyte
      have hinit : d.eventInit.scheduled = false := hbyte
      rw [hinit] at hone
      rw [if_neg (by simp), if_neg (by simp), Event.deschedule_eq_some.mpr ⟨hone, rfl⟩]
      exact ⟨_, rfl, rfl, hinit, rfl⟩

/-- **POWER_RET** leaves a device without an event. -/
theorem powerRet_spec (p : VirtualDeviceParams) (t : Tick) (h : OneEvent d) (hbyte : reinitialising d = false) :
    ∃ d', powerRet p t d = some d' ∧ Settled d' ∧ d'.has .chaos = d.has .chaos ∧ d'.has .ready = d.has .ready := by
  obtain ⟨d₁, hd₁, hpmem, hinit, htask⟩ := dropTask_spec p t h hbyte
  unfold powerRet
  rw [hd₁]
  have hhas := VirtualDevice.has_of_byte (congrFun hpmem 0)
  exact ⟨_, rfl, settled_of_idle (by simp) hinit htask, by simp [hhas], by simp [hhas]⟩

/-- **POWER_ON** schedules the one event of a device that was disrupted. -/
theorem powerOn_spec (p : VirtualDeviceParams) (t : Tick) (h : Settled d)
    (htask : d.vdevEnergyState = .sleep → d.needRecover = true → 0 < d.delayRemained → d.has .ready = true) :
    ∃ d', powerOn p t d = some d' ∧ Settled d' ∧ d'.has .chaos = d.has .chaos ∧ d'.has .ready = d.has .ready := by
  unfold powerOn
  by_cases hsleep : d.vdevEnergyState = .sleep
  · have hbusy := h.asleep hsleep
    obtain ⟨hinit, hintr⟩ := h.idle hbusy
    rw [if_pos hsleep]
    by_cases hrestart : d.needRecover ∧ d.delayRemained = 0
    · rw [if_pos hrestart, Event.schedule_eq_some.mpr ⟨Nat.le_add_right .., hinit, rfl⟩]
      refine ⟨_, rfl, ⟨⟨by simp, by simp [hintr], by simp⟩, by simp⟩, by simp, by simp⟩
    · rw [if_neg hrestart]
      by_cases hresume : d.needRecover ∧ 0 < d.delayRemained
      · rw [if_pos hresume, Event.schedule_eq_some.mpr ⟨Nat.le_add_right .., hintr, rfl⟩]
        have hready := htask hsleep hresume.1 hresume.2
        refine ⟨_, rfl, ⟨⟨by simp, by simp [hinit], by simp [hready]⟩, by simp⟩, by simp, by simp⟩
      · rw [if_neg hresume]
        exact ⟨_, rfl, settled_of_idle hbusy hinit hintr, rfl, rfl⟩
  · rw [if_neg hsleep]
    exact ⟨d, rfl, h, rfl, rfl⟩

theorem initReturn_spec (p : VirtualDeviceParams) (t : Tick) (hbusy : d.has .busy = false)
    (hinit : d.eventInit.scheduled = false) (htask : d.eventInterrupt.scheduled = false) :
    ∃ d', initReturn p t d = some d' ∧ Settled d' ∧ Known d' := by
  unfold initReturn
  dsimp only
  split
  · refine ⟨_, map_eq_some_iff.mpr ⟨_, Event.schedule_eq_some.mpr
      ⟨Nat.le_add_right .., htask, rfl⟩, rfl⟩, ⟨⟨?_, ?_, ?_⟩, ?_⟩, ?_⟩
    · simp
    · simp [hinit]
    · simp
    · simp
    · simp [Known]
  · exact ⟨_, rfl, settled_of_idle (by simp [hbusy]) hinit htask, by simp [Known]⟩

/-- **An event that fires** leaves at most a task to restart. -/
theorem triggerInterrupt_spec (p : VirtualDeviceParams) (t : Tick) (hbusy : d.has .busy = true)
    (hknown : Known d) (hinit : d.eventInit.scheduled = false) (htask : d.eventInterrupt.scheduled = false) :
    ∃ d', triggerInterrupt p t d = some d' ∧ Settled d' ∧ Known d' := by
  unfold triggerInterrupt
  rw [if_pos hbusy]
  dsimp only
  split
  · exact initReturn_spec p t (by simp) hinit htask
  · refine ⟨_, rfl, settled_of_idle (by simp [VirtualDevice.actuationReturn]) hinit htask, ?_⟩
    unfold Known at hknown
    simp [Known, VirtualDevice.actuationReturn, hknown]

end

/-! ## The device and its state machine -/

/-- What happens to the device and to the state machine. -/
inductive Act where
  | energy (t : Tick) (val : Rat)
  | deliver (t : Tick)
  | access (t : Tick) (pkt : Packet)
  | fireInit (t : Tick)
  | fireInterrupt (t : Tick)

def Act.time : Act → Tick
  | .energy t _ | .deliver t | .access t _ | .fireInit t | .fireInterrupt t => t

/-- The device, the state machine, the messages on their way and the last that was delivered. -/
structure RetDevice where
  dev : VirtualDevice
  sm : SMRetention
  msgTogo : List EnergyMsg
  last : EnergyMsg
  curTick : Tick

namespace RetDevice

/-- After `init()` of the state machine; the device has never been on. -/
def start (sm : SMRetention) : RetDevice :=
  ⟨.new, sm.init.1, sm.init.2, SMRetention.State.powerOff.msg, 0⟩

/-- One action.  The queue clears the flag of an event before it calls the handler. -/
def step (p : VirtualDeviceParams) (s : RetDevice) : Act → Option RetDevice
  | .energy t val =>
    some { s with
      sm := (s.sm.update val).1, msgTogo := s.msgTogo ++ (s.sm.update val).2, curTick := t }
  | .deliver t => s.msgTogo.head?.bind fun msg => (handleMsg p t s.dev msg).map fun r =>
      { s with dev := r.1, msgTogo := s.msgTogo.tail, last := msg, curTick := t }
  | .access t pkt => (s.dev.access p t pkt).map fun r => { s with dev := r.1, curTick := t }
  | .fireInit t =>
    (triggerInterrupt p t { s.dev with eventInit := s.dev.eventInit.fired }).map fun d =>
      { s with dev := d, curTick := t }
  | .fireInterrupt t =>
    (triggerInterrupt p t { s.dev with eventInterrupt := s.dev.eventInterrupt.fired }).map fun d =>
      { s with dev := d, curTick := t }

/-- The clock moves forward and not past an event, a message is delivered if there is one, and an
    event fires exactly when it is due. -/
def Legal (p : VirtualDeviceParams) (s : RetDevice) (a : Act) : Prop :=
  (s.curTick ≤ a.time ∧ (∀ w ∈ s.dev.eventInit.due, a.time ≤ w) ∧ ∀ w ∈ s.dev.eventInterrupt.due, a.time ≤ w) ∧
    match a with
    | .energy _ _ => True
    | .deliver _ => s.msgTogo ≠ []
    | .access _ pkt => InRange p pkt
    | .fireInit t => s.dev.eventInit.due = some t
    | .fireInterrupt t => s.dev.eventInterrupt.due = some t

instance (p : VirtualDeviceParams) (s : RetDevice) (a : Act) : Decidable (s.Legal p a) :=
  match a with
  | .energy _ _ | .deliver _ | .access _ _ | .fireInit _ | .fireInterrupt _ =>
    inferInstanceAs (Decidable ((_ ∧ _ ∧ _) ∧ _))

/-- The device is powered off: that is what it was told last. -/
def Off (s : RetDevice) : Prop := s.last.type = SMRetention.MsgType.powerOff.toInt

instance (s : RetDevice) : Decidable s.Off := inferInstanceAs (Decidable (_ = _))

/-- No event fires while the device is off, and no task's event while it is in chaos. -/
def FiresInPlace (s : RetDevice) : Act → Prop
  | .fireInit _ => ¬ s.Off
  | .fireInterrupt _ => ¬ s.Off ∧ s.dev.has .chaos = false
  | .energy _ _ | .deliver _ | .access _ _ => True

/-- The condition on a message and the device that it finds. -/
def BenignMsg (d : VirtualDevice) (msg : EnergyMsg) : Prop :=
  (msg.type = SMRetention.MsgType.powerOff.toInt → d.has .busy = false) ∧
  (msg.type = SMRetention.MsgType.powerRet.toInt → reinitialising d = false) ∧
  (msg.type = SMRetention.MsgType.powerOn.toInt → d.vdevEnergyState = .sleep →
    d.needRecover = true → 0 < d.delayRemained → d.has .ready = true)

instance (d : VirtualDevice) (msg : EnergyMsg) : Decidable (BenignMsg d msg) :=
  inferInstanceAs (Decidable (_ ∧ _ ∧ _))

/-- POWER_OFF finds the device not busy, POWER_RET does not find it initialising while ready,
    POWER_ON has no task to restart in chaos, and no command is accepted while the device is off. -/
def Benign (p : VirtualDeviceParams) (s : RetDevice) : Act → Prop
  | .deliver _ => ∀ msg ∈ s.msgTogo.head?, BenignMsg s.dev msg
  | .access _ pkt => accepted p s.dev pkt = true → ¬ s.Off
  | .energy _ _ | .fireInit _ | .fireInterrupt _ => True

instance (p : VirtualDeviceParams) (s : RetDevice) (a : Act) : Decidable (s.Benign p a) :=
  match a with
  | .deliver _ => inferInstanceAs (Decidable (∀ msg ∈ s.msgTogo.head?, BenignMsg s.dev msg))
  | .access _ _ => inferInstanceAs (Decidable (_ → _))
  | .energy _ _ | .fireInit _ | .fireInterrupt _ => isTrue trivial

/-! ## Every run -/

/-- What the runs keep.  Before the first POWER_OFF has been delivered the byte is zero. -/
structure Sound (s : RetDevice) : Prop where
  settled : Settled s.dev
  still : s.Off → s.dev.has .busy = false
  known : Known s.dev ∨ (s.Off ∧ s.msgTogo.head? = some SMRetention.State.powerOff.msg)
  msgs : ∀ m ∈ s.msgTogo, ∃ state, m = SMRetention.State.msg state

variable {p : VirtualDeviceParams} {s : RetDevice} {t : Tick}

namespace Sound

section

variable (h : s.Sound)

include h

theorem known_of_on (hon : ¬ s.Off) : Known s.dev :=
  h.known.resolve_right fun hboot => hon hboot.1

theorem known_of_head {state : SMRetention.State} {d : VirtualDevice}
    (hhead : s.msgTogo.head? = some state.msg) (hne : state.msg ≠ SMRetention.State.powerOff.msg)
    (hflags : d.has .chaos = s.dev.has .chaos ∧ d.has .ready = s.dev.has .ready) : Known d := by
  have hknown : Known s.dev := h.known.resolve_right fun hboot =>
    hne (some.inj (hhead.symm.trans hboot.2))
  unfold Known at hknown ⊢
  rw [hflags.1, hflags.2, hknown]

/-- **Events fire in place.** -/
theorem firesInPlace {a : Act} (hleg : s.Legal p a) : s.FiresInPlace a := by
  have hon : s.dev.eventInit.scheduled = true ∨ s.dev.eventInterrupt.scheduled = true → ¬ s.Off := by
    intro hsched hoff
    have hbusy := h.settled.busy_of_scheduled hsched
    rw [h.still hoff] at hbusy
    cases hbusy
  cases a with
  | energy t val | deliver t | access t pkt => trivial
  | fireInit t => exact hon (Or.inl (Event.due_eq_some.mp hleg.2).1)
  | fireInterrupt t =>
    have htask := (Event.due_eq_some.mp hleg.2).1
    have hoff := hon (Or.inr htask)
    refine ⟨hoff, ?_⟩
    have hknown := h.known_of_on hoff
    rw [hknown, h.settled.ready_of_task htask]
    rfl

/-- **A message that is benign.** -/
theorem deliver (hleg : s.Legal p (.deliver t)) (hben : s.Benign p (.deliver t)) :
    ∃ s', s.step p (.deliver t) = some s' ∧ s'.Sound := by
  obtain ⟨msg, rest, hmsgs⟩ := exists_cons_of_ne_nil hleg.2
  have hbenign := hben msg (by rw [hmsgs]; rfl)
  have hrest : ∀ m ∈ s.msgTogo.tail, ∃ state, m = SMRetention.State.msg state := fun m hm =>
    h.msgs m (mem_of_mem_tail hm)
  obtain ⟨state, rfl⟩ := h.msgs msg (by rw [hmsgs]; exact mem_cons_self ..)
  have hhead : s.msgTogo.head? = some state.msg := by rw [hmsgs]; rfl
  show ∃ s', (s.msgTogo.head?.bind _) = some s' ∧ _
  rw [hhead, bind_some]
  cases state with
  | powerOff =>
    obtain ⟨hsettled, hknown, hbusy⟩ := powerOff_spec h.settled.toOneEvent (hbenign.1 rfl)
    exact ⟨_, rfl, hsettled, fun _ => hbusy, Or.inl hknown, hrest⟩
  | powerRetention =>
    obtain ⟨d', hd', hsettled, hflags⟩ :=
      powerRet_spec p t h.settled.toOneEvent (hbenign.2.1 rfl)
    have hmsg : handleMsg p t s.dev SMRetention.State.powerRetention.msg = some (d', 1) :=
      map_eq_some_iff.mpr ⟨d', hd', rfl⟩
    rw [hmsg]
    exact ⟨_, rfl, hsettled, nofun, Or.inl (h.known_of_head hhead (by decide) hflags), hrest⟩
  | powerOn =>
    obtain ⟨d', hd', hsettled, hflags⟩ := powerOn_spec p t h.settled (hbenign.2.2 rfl)
    have hmsg : handleMsg p t s.dev SMRetention.State.powerOn.msg = some (d', 1) :=
      map_eq_some_iff.mpr ⟨d', hd', rfl⟩
    rw [hmsg]
    exact ⟨_, rfl, hsettled, nofun, Or.inl (h.known_of_head hhead (by decide) hflags), hrest⟩

/-- **An access** goes through; a command is accepted only while the device is on. -/
theorem access {pkt : Packet} (hben : s.Benign p (.access t pkt)) :
    ∃ s', s.step p (.access t pkt) = some s' ∧ s'.Sound := by
  obtain ⟨⟨d', data⟩, hr⟩ := h.settled.exists_access p t pkt
  have hacc := accessed hr
  have hknown : accepted p s.dev pkt = true → Known s.dev := fun hyes => h.known_of_on (hben hyes)
  have hready : accepted p s.dev pkt = true → s.dev.has .chaos = false → s.dev.has .ready = true := by
    intro hyes hchaos
    have hk := hknown hyes
    unfold Known at hk
    rw [hchaos] at hk
    exact (Bool.not_eq_false' _).mp hk.symm
  obtain ⟨hchaos, hreadyEq⟩ := hacc.keeps
  refine ⟨_, map_eq_some_iff.mpr ⟨_, hr, rfl⟩, ⟨hacc.oneEvent h.settled.toOneEvent hready, ?_⟩, ?_, ?_, h.msgs⟩
  · intro hsleep
    cases hacc with
    | other _ hflags _ _ henergy =>
      rw [hflags]
      exact h.settled.asleep (henergy ▸ hsleep)
    | init _ _ _ _ _ henergy | activate _ _ _ _ _ _ henergy =>
      rw [henergy] at hsleep
      cases hsleep
  · intro hoff
    cases hacc with
    | other _ hflags => exact (hflags _).trans (h.still hoff)
    | init hyes | activate hyes => exact absurd hoff (hben hyes)
  · show Known d' ∨ _
    unfold Known
    rw [hchaos, hreadyEq]
    exact h.known

/-- **An event that is due** fires without a failed assertion. -/
theorem fire {d : VirtualDevice} (hon : ¬ s.Off) (hbusy : s.dev.has .busy = true)
    (hpmem : d.pmem = s.dev.pmem) (hinit : d.eventInit.scheduled = false)
    (htask : d.eventInterrupt.scheduled = false) :
    ∃ d', triggerInterrupt p t d = some d' ∧ ({ s with dev := d', curTick := t } : RetDevice).Sound := by
  have hhas := VirtualDevice.has_of_byte (congrFun hpmem 0)
  have hknown := h.known_of_on hon
  unfold Known at hknown
  rw [← hhas, ← hhas] at hknown
  obtain ⟨d', hd', hsettled, hknown'⟩ :=
    triggerInterrupt_spec p t (by rw [hhas, hbusy]) hknown hinit htask
  exact ⟨d', hd', hsettled, fun hoff => absurd hoff hon, Or.inl hknown', h.msgs⟩

/-- **One step.** -/
theorem step {a : Act} (hleg : s.Legal p a) (hben : s.Benign p a) :
    ∃ s', s.step p a = some s' ∧ s'.Sound := by
  have hplace := h.firesInPlace hleg
  cases a with
  | energy t val =>
    refine ⟨_, rfl, h.settled, h.still, ?_, ?_⟩
    · refine h.known.imp_right fun ⟨hoff, hhead⟩ => ⟨hoff, ?_⟩
      show (s.msgTogo ++ _).head? = _
      rw [head?_append, hhead]
      rfl
    · refine forall_mem_append.mpr ⟨h.msgs, ?_⟩
      rw [s.sm.update_msgs val]
      split
      · exact forall_mem_nil _
      · exact forall_mem_singleton.mpr ⟨_, rfl⟩
  | deliver t => exact h.deliver hleg hben
  | access t pkt => exact h.access hben
  | fireInit t =>
    have hsched := (Event.due_eq_some.mp hleg.2).1
    obtain ⟨d', hd', hsound⟩ := h.fire (p := p) (t := t) (d := { s.dev with eventInit := s.dev.eventInit.fired })
      hplace (h.settled.busy_of_scheduled (Or.inl hsched)) rfl rfl (h.settled.task_of_init hsched)
    exact ⟨_, map_eq_some_iff.mpr ⟨d', hd', rfl⟩, hsound⟩
  | fireInterrupt t =>
    have hsched := (Event.due_eq_some.mp hleg.2).1
    obtain ⟨d', hd', hsound⟩ := h.fire (p := p) (t := t)
      (d := { s.dev with eventInterrupt := s.dev.eventInterrupt.fired })
      hplace.1 (h.settled.busy_of_scheduled (Or.inr hsched)) rfl (h.settled.init_of_task hsched) rfl
    exact ⟨_, map_eq_some_iff.mpr ⟨d', hd', rfl⟩, hsound⟩

end

end Sound

theorem sound_of_run {sm : SMRetention} {as : List Act}
    (h : Run (Guarded (stepOf (step p)) fun s a => s.Legal p a ∧ s.Benign p a) (start sm) as s) : s.Sound := by
  refine h.inv (P := Sound) ?_ ?_
  · rintro s a s' hs ⟨hstep, hleg, hben⟩
    obtain ⟨s₁, hs₁, hsound⟩ := hs.step hleg hben
    cases hs₁.symm.trans hstep
    exact hsound
  · have hnew : VirtualDevice.new.has .busy = false := by decide
    refine ⟨settled_of_idle hnew rfl rfl, fun _ => hnew, Or.inr ⟨rfl, rfl⟩, ?_⟩
    intro m hm
    cases mem_singleton.mp hm
    exact ⟨.powerOff, rfl⟩

end RetDevice

/-- **When the retention device is safe.**  Whatever the thresholds of the state machine and the
    energies it sees, in every run that meets `Benign` an event that is due fires in place, and
    every legal step that meets `Benign` goes through without a failed assertion. -/
theorem retention_device_safe (p : VirtualDeviceParams) {sm : SMRetention} {as : List Act} {s : RetDevice}
    (h : Run (Guarded (stepOf (RetDevice.step p)) fun s a => s.Legal p a ∧ s.Benign p a)
      (.start sm) as s) {a : Act} (hleg : s.Legal p a) :
    s.FiresInPlace a ∧ (s.Benign p a → ∃ s', s.step p a = some s') := by
  have hsound := RetDevice.sound_of_run h
  refine ⟨hsound.firesInPlace hleg, fun hben => ?_⟩
  obtain ⟨s', hs', -⟩ := hsound.step hleg hben
  exact ⟨s', hs'⟩

/-- A machine that is off up to 10, in retention up to 20, and on from 30. -/
def demoSM : SMRetention := .new 10 20 30

/-- The first POWER_ON and an initialisation; with `more` acts afterwards. -/
def afterInit (more : List Act) : List Act :=
  [.deliver 0, .energy 1 40, .deliver 2, .access 3 writeInit, .fireInit 8] ++ more

/-- A task is interrupted by a retention and completes after it. -/
theorem retention_device_retained_task : ∃ s, exec (guardFn (RetDevice.step demoParams)
        fun s a => s.Legal demoParams a ∧ s.Benign demoParams a) (.start demoSM)
        (afterInit [.access 9 writeActivate, .energy 10 15, .deliver 11, .energy 12 40, .deliver 13]) = some s ∧
      s.Legal demoParams (.fireInterrupt 23) ∧ s.FiresInPlace (.fireInterrupt 23) ∧
      ∃ s', s.step demoParams (.fireInterrupt 23) = some s' := by
  refine exec_observe (fun s => decide (s.Legal demoParams (.fireInterrupt 23)))
    true (by decide +kernel) fun s hs hobs => ?_
  have hleg := of_decide_eq_true hobs
  obtain ⟨hplace, hgo⟩ := retention_device_safe demoParams (exec_guardFn_iff.mp hs) hleg
  exact ⟨hleg, hplace, hgo trivial⟩

/-- After the acts the last of them is legal, and fails an assertion. -/
def failsAt (as : List Act) (a : Act) : Bool :=
  match exec (guardFn (RetDevice.step demoParams) (RetDevice.Legal demoParams)) (.start demoSM) as with
  | some s => decide (s.Legal demoParams a) && (s.step demoParams a).isNone
  | none => false

/-- **Where it breaks.**  From on to off in one step while a task is running; a second INIT before a
    retention; a task that is restarted in chaos, whose event then fires on a device that was never
    initialised; INIT while the device is off. -/
theorem retention_device_fails : failsAt (afterInit [.access 9 writeActivate, .energy 10 5, .deliver 11])
        (.fireInterrupt 19) = true ∧ failsAt (afterInit [.access 9 writeInit, .energy 10 15]) (.deliver 11) = true ∧
      (exec (guardFn (RetDevice.step demoParams) (RetDevice.Legal demoParams)) (.start demoSM)
        (afterInit [.access 9 writeActivate, .energy 10 15, .deliver 11, .energy 12 5, .deliver 13,
          .energy 14 40, .deliver 15, .energy 16 15, .deliver 17, .energy 18 40, .deliver 19])).map
        (fun s => (decide (s.Legal demoParams (.fireInterrupt 29)), s.dev.has .chaos)) = some (true, true) ∧
      (exec (guardFn (RetDevice.step demoParams) (RetDevice.Legal demoParams)) (.start demoSM)
        [.deliver 0, .access 3 writeInit]).map
        (fun s => (decide (s.Legal demoParams (.fireInit 8)), decide s.Off)) = some (true, true) := by
  decide +kernel

end NvpSim.Vdev.Retention
