/-
  The retention variant of the CPU (`cpu/simple/atomic_ret.cc`), which takes its messages from an
  `SM_Retention`.

    * `tick_recover` is zeroed on entry of EVERY message, so the POWER_ON after a retention schedules the event at
      tick 0, which is in the past;
    * the POWER_ON after a POWER_OFF schedules nothing;
    * a POWER_OFF or a POWER_RET asserts that the event is scheduled, and after a retention it is not.
-/
import NvpSim.Cpu.Atomic
import NvpSim.Energy.Hysteresis
import NvpSim.Lib.Run

namespace NvpSim.Cpu

open NvpSim.Base NvpSim.Sim NvpSim.Lib NvpSim.Energy Option

/-! ## The CPU -/

inductive EngyState where
  | powerOff
  | sleep
  | normal
  deriving DecidableEq, Repr

/-- The parameters that `handleMsg` and `tick` use; `powerCpu` is `power_cpu`. -/
structure AtomicRetParams where
  period : Tick
  powerCpu : EngyState → Rat

/-- The power-related state of the CPU. -/
structure AtomicRetCpu where
  tickEvent : Event
  tickRecover : Tick
  recoverTime : Tick
  cpuEnergyState : EngyState
  consumed : List Rat

namespace AtomicRetCpu

/-- The rest of `tick()` after the instructions: the energy of the state that the CPU is in, then the next tick. -/
def tick (p : AtomicRetParams) (curTick : Tick) (c : AtomicRetCpu) (latency : Tick) : Option AtomicRetCpu :=
  let latency := if latency < p.period then p.period else latency
  let c := { c with
    consumed := c.consumed ++ [p.powerCpu c.cpuEnergyState * divCeil latency p.period] }
  (c.tickEvent.schedule curTick (curTick + latency)).map fun e => { c with tickEvent := e }

/-- `handleMsg(msg)`: the CPU and the return code. -/
def handleMsg (p : AtomicRetParams) (curTick : Tick) (c : AtomicRetCpu) (msg : EnergyMsg) :
    Option (AtomicRetCpu × Int) :=
  let c := { c with tickRecover := 0 }
  if msg.type = SMRetention.MsgType.powerOff.toInt then
    c.tickEvent.deschedule.map fun e =>
      ({ c with recoverTime := 0, tickEvent := e, cpuEnergyState := .powerOff }, 1)
  else if msg.type = SMRetention.MsgType.powerRet.toInt then
    -- the uncompleted cycle should be re-executed
    let tickRemain := c.tickEvent.when - curTick
    let c := { c with
      tickRecover := c.tickRecover + (tickRemain + (p.period - tickRemain % p.period))
      recoverTime := 0 }
    c.tickEvent.deschedule.map fun e => ({ c with tickEvent := e, cpuEnergyState := .sleep }, 1)
  else if msg.type = SMRetention.MsgType.powerOn.toInt then
    if c.cpuEnergyState = .sleep then
      (c.tickEvent.schedule curTick c.tickRecover).map fun e =>
        ({ c with tickEvent := e, tickRecover := 0, cpuEnergyState := .normal }, 1)
    else if c.cpuEnergyState = .powerOff then some ({ c with cpuEnergyState := .normal }, 1)
    else some (c, 1)
  else some (c, 1)

end AtomicRetCpu

/-! ## Runs -/

/-- What happens to the CPU, and when: a message, or its tick event fires. -/
inductive RetCpuAct where
  | message (state : SMRetention.State) (t : Tick)
  | tick (t latency : Tick)

/-- The tick of an action. -/
def RetCpuAct.time : RetCpuAct → Tick
  | message _ t | tick t _ => t

/-- The CPU and the time. -/
structure RetCpuSys where
  cpu : AtomicRetCpu
  curTick : Tick

namespace RetCpuSys

/-- A powered, running CPU whose next tick is due at `w`. -/
def start (curTick w : Tick) : RetCpuSys := ⟨⟨⟨w, true⟩, 0, 0, .normal, []⟩, curTick⟩

/-- One action.  The queue clears the flag of the tick event before it calls `tick`. -/
def step (p : AtomicRetParams) (s : RetCpuSys) : RetCpuAct → Option RetCpuSys
  | .message state t => (s.cpu.handleMsg p t state.msg).map fun r => ⟨r.1, t⟩
  | .tick t latency =>
    ({ s.cpu with tickEvent := s.cpu.tickEvent.fired }.tick p t latency).map fun c => ⟨c, t⟩

/-- The clock moves forward and not past the tick event, which fires exactly when it is due. -/
def Legal (s : RetCpuSys) (a : RetCpuAct) : Prop :=
  s.curTick ≤ a.time ∧ (s.cpu.tickEvent.scheduled = true → a.time ≤ s.cpu.tickEvent.when) ∧
    match a with
    | .message _ _ => True
    | .tick t _ => s.cpu.tickEvent.due = some t

instance (s : RetCpuSys) (a : RetCpuAct) : Decidable (s.Legal a) :=
  match a with
  | .message _ _ | .tick _ _ => inferInstanceAs (Decidable (_ ∧ _ ∧ _))

/-- What is to hold after a message: the tick event is scheduled if and only if the message was POWER_ON, and it is
    not in the past. -/
def Scheduled (s : RetCpuSys) (state : SMRetention.State) : Prop :=
  (s.cpu.tickEvent.scheduled = true ↔ state = .powerOn) ∧ ∀ w ∈ s.cpu.tickEvent.due, s.curTick ≤ w

/-- The condition on a message and the state it finds: the tick event is scheduled, or the message is the POWER_ON
    that ends a retention at tick 0. -/
def Handled (s : RetCpuSys) : RetCpuAct → Prop
  | .message state t =>
    s.cpu.tickEvent.scheduled = true ∨ (state = .powerOn ∧ s.cpu.cpuEnergyState = .sleep ∧ t = 0)
  | .tick _ _ => True

instance (s : RetCpuSys) (a : RetCpuAct) : Decidable (s.Handled a) :=
  match a with
  | .message _ _ => inferInstanceAs (Decidable (_ ∨ _))
  | .tick _ _ => isTrue trivial

variable {p : AtomicRetParams} {s s' : RetCpuSys} {t : Tick}

/-! ## What a message does -/

theorem message_powerOff_eq (p : AtomicRetParams) (s : RetCpuSys) (t : Tick) :
    s.step p (.message .powerOff t) = s.cpu.tickEvent.deschedule.map fun e =>
      ⟨{ s.cpu with tickRecover := 0, recoverTime := 0, tickEvent := e, cpuEnergyState := .powerOff }, t⟩ := by
  show (Option.map _ (Option.map _ _)) = _
  rw [map_map]
  rfl

theorem message_powerRet_eq (p : AtomicRetParams) (s : RetCpuSys) (t : Tick) :
    s.step p (.message .powerRetention t) = s.cpu.tickEvent.deschedule.map fun e =>
      ⟨{ s.cpu with
          tickRecover := 0 + (s.cpu.tickEvent.when - t + (p.period - (s.cpu.tickEvent.when - t) % p.period))
          recoverTime := 0, tickEvent := e, cpuEnergyState := .sleep }, t⟩ := by
  show (Option.map _ (Option.map _ _)) = _
  rw [map_map]
  rfl

theorem message_powerOn_sleep (h : s.cpu.cpuEnergyState = .sleep) :
    s.step p (.message .powerOn t) = (s.cpu.tickEvent.schedule t 0).map fun e =>
      ⟨{ s.cpu with tickRecover := 0, tickEvent := e, cpuEnergyState := .normal }, t⟩ := by
  show ((if s.cpu.cpuEnergyState = .sleep then _ else _ : Option (AtomicRetCpu × Int)).map _) = _
  rw [if_pos h, map_map]
  rfl

theorem message_powerOn_awake (h : s.cpu.cpuEnergyState ≠ .sleep) : s.step p (.message .powerOn t) =
      some ⟨{ s.cpu with tickRecover := 0, cpuEnergyState := .normal }, t⟩ := by
  show ((if s.cpu.cpuEnergyState = .sleep then _ else _ : Option (AtomicRetCpu × Int)).map _) = _
  cases hstate : s.cpu.cpuEnergyState with
  | powerOff => rfl
  | sleep => exact absurd hstate h
  | normal =>
    rfl

/-! ## Every run -/

/-- A CPU that sleeps is not scheduled, and the tick event is never in the past. -/
structure Sound (s : RetCpuSys) : Prop where
  asleep : s.cpu.cpuEnergyState = .sleep → s.cpu.tickEvent.scheduled = false
  future : ∀ w ∈ s.cpu.tickEvent.due, s.curTick ≤ w

theorem descheduled_iff {state : SMRetention.State} (hne : state ≠ .powerOn) {f : Event → AtomicRetCpu}
    (hf : ∀ e, (f e).tickEvent = e)
    (heq : s.step p (.message state t) = s.cpu.tickEvent.deschedule.map fun e => ⟨f e, t⟩) :
    (∃ s', s.step p (.message state t) = some s' ∧ s'.Scheduled state) ↔ s.cpu.tickEvent.scheduled = true := by
  rw [heq]
  constructor
  · rintro ⟨s', hs', -⟩
    obtain ⟨e, he, -⟩ := map_eq_some_iff.mp hs'
    exact (Event.deschedule_eq_some.mp he).1
  · intro hsched
    refine ⟨_, map_eq_some_iff.mpr ⟨_, Event.deschedule_eq_some.mpr ⟨hsched, rfl⟩, rfl⟩, ?_, ?_⟩
    · show (f _).tickEvent.scheduled = true ↔ _
      rw [hf]
      exact ⟨nofun, fun h => absurd h hne⟩
    · show ∀ w ∈ (f _).tickEvent.due, t ≤ w
      rw [hf]
      intro w hw
      cases hw

/-- **One message** is handled as it should be exactly if it meets the condition. -/
theorem Sound.message_iff (h : s.Sound) {state : SMRetention.State} (hleg : s.Legal (.message state t)) :
    (∃ s', s.step p (.message state t) = some s' ∧ s'.Scheduled state) ↔ s.Handled (.message state t) := by
  cases state with
  | powerOff =>
    rw [descheduled_iff (by decide) (fun _ => rfl) (message_powerOff_eq p s t)]
    exact ⟨Or.inl, fun hh => hh.resolve_right fun hon => nomatch hon.1⟩
  | powerRetention =>
    rw [descheduled_iff (by decide) (fun _ => rfl) (message_powerRet_eq p s t)]
    exact ⟨Or.inl, fun hh => hh.resolve_right fun hon => nomatch hon.1⟩
  | powerOn =>
    by_cases hsleep : s.cpu.cpuEnergyState = .sleep
    · have hfree := h.asleep hsleep
      rw [message_powerOn_sleep hsleep]
      constructor
      · rintro ⟨s', hs', -⟩
        obtain ⟨e, he, -⟩ := map_eq_some_iff.mp hs'
        exact Or.inr ⟨rfl, hsleep, Nat.le_zero.mp (Event.schedule_eq_some.mp he).1⟩
      · intro hh
        have hzero : t = 0 := by
          rcases hh with hsched | hon
          · rw [hfree] at hsched
            cases hsched
          · exact hon.2.2
        have hsched : s.cpu.tickEvent.schedule t 0 = some ⟨0, true⟩ :=
          Event.schedule_eq_some.mpr ⟨Nat.le_of_eq hzero, hfree, rfl⟩
        rw [hsched]
        refine ⟨_, rfl, ⟨fun _ => rfl, fun _ => rfl⟩, ?_⟩
        intro w hw
        cases hw
        exact Nat.le_of_eq hzero
    · rw [message_powerOn_awake hsleep]
      constructor
      · rintro ⟨s', hs', hscheduled, -⟩
        cases hs'
        exact Or.inl (hscheduled.mpr rfl)
      · intro hh
        have hsched : s.cpu.tickEvent.scheduled = true :=
          hh.resolve_right fun hon => hsleep hon.2.1
        refine ⟨_, rfl, ⟨fun _ => rfl, fun _ => hsched⟩, ?_⟩
        intro w hw
        rw [← (Event.due_eq_some.mp hw).2]
        exact hleg.2.1 hsched

theorem Sound.message (h : s.Sound) {state : SMRetention.State} (hleg : s.Legal (.message state t))
    (hh : s.Handled (.message state t)) (hs : s.step p (.message state t) = some s') : s'.Sound := by
  obtain ⟨s₁, hs₁, -, hfuture⟩ := (h.message_iff (p := p) hleg).mpr hh
  cases hs₁.symm.trans hs
  refine ⟨?_, hfuture⟩
  intro hsleep
  cases state with
  | powerOff =>
    rw [message_powerOff_eq] at hs
    obtain ⟨e, -, rfl⟩ := map_eq_some_iff.mp hs
    cases hsleep
  | powerRetention =>
    rw [message_powerRet_eq] at hs
    obtain ⟨e, he, rfl⟩ := map_eq_some_iff.mp hs
    rw [(Event.deschedule_eq_some.mp he).2]
  | powerOn =>
    by_cases hbefore : s.cpu.cpuEnergyState = .sleep
    · rw [message_powerOn_sleep hbefore] at hs
      obtain ⟨e, -, rfl⟩ := map_eq_some_iff.mp hs
      cases hsleep
    · rw [message_powerOn_awake hbefore] at hs
      cases hs
      cases hsleep

theorem Sound.tick (h : s.Sound) {latency : Tick} (hleg : s.Legal (.tick t latency)) :
    ∃ s', s.step p (.tick t latency) = some s' ∧ s'.Sound ∧ s'.cpu.tickEvent.scheduled = true := by
  obtain ⟨-, -, hdue⟩ := hleg
  have hsched := (Event.due_eq_some.mp hdue).1
  refine ⟨_, map_eq_some_iff.mpr ⟨_, map_eq_some_iff.mpr ⟨_,
    Event.schedule_of_due_none rfl (Nat.le_add_right t _), rfl⟩, rfl⟩, ⟨?_, ?_⟩, rfl⟩
  · intro hsleep
    rw [h.asleep hsleep] at hsched
    cases hsched
  · intro w hw
    cases hw
    exact Nat.le_add_right t _

theorem sound_of_run {t₀ w₀ : Tick} (h₀ : t₀ ≤ w₀) {as : List RetCpuAct}
    (h : Run (Guarded (stepOf (step p)) fun s a => s.Legal a ∧ s.Handled a) (start t₀ w₀) as s) : s.Sound := by
  refine h.inv (P := Sound) ?_ ⟨nofun, fun w hw => by cases hw; exact h₀⟩
  rintro s a s' hs ⟨hstep, hleg, hh⟩
  cases a with
  | message state t => exact hs.message hleg hh hstep
  | tick t latency =>
    obtain ⟨s₁, hs₁, hsound, -⟩ := hs.tick (p := p) hleg
    cases hs₁.symm.trans hstep
    exact hsound

/-- **When the retention CPU schedules correctly.**  Start from a powered, running CPU and let all messages so far
    meet the condition `Handled`.  Then every due tick is taken and leaves the event scheduled; and the next message
    fails no assertion, and leaves the event scheduled if and only if it was POWER_ON, exactly if it meets the
    condition as well. -/
theorem retention_cpu_schedules (p : AtomicRetParams) {t₀ w₀ : Tick} (h₀ : t₀ ≤ w₀)
    {as : List RetCpuAct} {s : RetCpuSys}
    (h : Run (Guarded (stepOf (step p)) fun s a => s.Legal a ∧ s.Handled a) (start t₀ w₀) as s) :
    (∀ t latency, s.Legal (.tick t latency) →
      ∃ s', s.step p (.tick t latency) = some s' ∧ s'.cpu.tickEvent.scheduled = true) ∧
    ∀ state t, s.Legal (.message state t) → ((∃ s', s.step p (.message state t) = some s' ∧ s'.Scheduled state) ↔
        s.Handled (.message state t)) := by
  have hsound := sound_of_run h₀ h
  refine ⟨?_, fun state t hleg => hsound.message_iff hleg⟩
  intro t latency hleg
  obtain ⟨s', hs', -, hsched⟩ := hsound.tick (p := p) hleg
  exact ⟨s', hs', hsched⟩

/-- A clock period of 10 ticks. -/
def demoRetCpu : AtomicRetParams := ⟨10, fun state => if state = .normal then 13 / 10 else 0⟩

/-- A POWER_ON, a tick, and then a retention. -/
theorem retention_cpu_schedules_retention :
    ∃ s, exec (guardFn (step demoRetCpu) fun s a => s.Legal a ∧ s.Handled a) (start 0 10)
        [.message .powerOn 3, .tick 10 0] = some s ∧
      ∃ s', s.step demoRetCpu (.message .powerRetention 12) = some s' ∧ s'.Scheduled .powerRetention := by
  refine exec_observe (fun s => (s.cpu.tickEvent, s.curTick)) (⟨20, true⟩, 10) (by decide +kernel) fun s hs hobs => ?_
  obtain ⟨hevent, htick⟩ := Prod.mk.inj hobs
  refine ((retention_cpu_schedules demoRetCpu (by decide) (exec_guardFn_iff.mp hs)).2
    .powerRetention 12 ⟨?_, ?_, trivial⟩).mpr (Or.inl ?_)
  · rw [htick]
    decide
  · rw [hevent]
    decide
  · rw [hevent]

/-- **Three sequences that go wrong**: after POWER_OFF and POWER_ON the tick event is not scheduled, and POWER_ON or
    POWER_OFF after a retention fails an assertion. -/
theorem retention_cpu_misses_powerOn : (exec (guardFn (step demoRetCpu) Legal) (start 0 10)
        [.message .powerOff 5, .message .powerOn 8]).map (fun s => s.cpu.tickEvent.scheduled) = some false ∧
      ((exec (guardFn (step demoRetCpu) Legal) (start 0 10) [.message .powerRetention 5]).map
        fun s => (decide (s.Legal (.message .powerOn 8)), (s.step demoRetCpu (.message .powerOn 8)).isSome,
          decide (s.Legal (.message .powerOff 8)), (s.step demoRetCpu (.message .powerOff 8)).isSome)) =
        some (true, false, true, false) := by
  decide +kernel

end RetCpuSys
end NvpSim.Cpu
