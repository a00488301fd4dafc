/-
  The power side of `AtomicSimpleCPU` (`cpu/simple/atomic.{hh,cc}`).

  The CPU runs on ONE event, `tickEvent`.  POWER_OFF takes it off the queue, POWER_ON puts it back after the
  restore time, an interrupt or a recovering peripheral pushes it back.  What the instructions do is not
  modelled; `tick` takes the latency they accumulated.  A failed `assert`, of the CPU or of the event queue, is
  `none`.
-/
import NvpSim.Base.Bitfield
import NvpSim.Sim.Event
import NvpSim.Energy.StateMachine

namespace NvpSim.Cpu

open NvpSim.Base NvpSim.Sim NvpSim.Energy

/-- The parameters `handleMsg` and `tick` use; `period` is `clockPeriod()`, `powerNormal` is
    `power_cpu[2]`. -/
structure AtomicCpuParams where
  period : Tick
  cycleBackup : Nat
  cycleRestore : Nat
  powerNormal : Rat

/-- The power-related state of an `AtomicSimpleCPU`. -/
structure AtomicCpu where
  tickEvent : Event
  tickRecover : Tick
  recoverTime : Tick
  consumed : List Rat

namespace AtomicCpu

/-- The rest of `tick()` after the instructions: at least one cycle, then the next tick. -/
def tick (p : AtomicCpuParams) (curTick : Tick) (c : AtomicCpu) (latency : Tick) : Option AtomicCpu :=
  let latency := if latency < p.period then p.period else latency
  let c := { c with consumed := c.consumed ++ [p.powerNormal * divCeil latency p.period] }
  (c.tickEvent.schedule curTick (curTick + latency)).map (fun e => { c with tickEvent := e })

/-- `virtualDeviceInterrupt(vdev_name, delay_isa)`: whole cycles of interrupt service first. -/
def virtualDeviceInterrupt (p : AtomicCpuParams) (curTick : Tick) (c : AtomicCpu)
    (delayIsa : Tick) : Option AtomicCpu :=
  let delayIsa :=
    if delayIsa % p.period ≠ 0 then delayIsa + (p.period - delayIsa % p.period) else delayIsa
  (c.tickEvent.reschedule curTick (c.tickEvent.when + delayIsa)).map (fun e =>
    { c with tickEvent := e })

/-- `virtualDeviceRecover(vdev_name, delay_vdev_init)`: wait for the slowest peripheral. -/
def virtualDeviceRecover (curTick : Tick) (c : AtomicCpu) (delayVdevInit : Tick) : Option AtomicCpu :=
  let time := c.tickEvent.when - c.recoverTime
  let time := time + (if c.recoverTime ≥ delayVdevInit then c.recoverTime else delayVdevInit)
  (c.tickEvent.reschedule curTick time).map (fun e => { c with tickEvent := e })

/-- `handleMsg(msg)`: the CPU and the return code.  `tick_recover` is zeroed on EVERY entry. -/
def handleMsg (p : AtomicCpuParams) (curTick : Tick) (c : AtomicCpu) (msg : EnergyMsg) : Option (AtomicCpu × Int) :=
  let c := { c with tickRecover := 0 }
  if msg.type = SimpleEnergySM.MsgType.powerOff.toInt then
    -- backup procedure
    let c := { c with
      tickRecover := c.tickRecover + p.cycleBackup * p.period
      consumed := c.consumed ++ [p.powerNormal * p.cycleBackup] }
    -- the uncompleted cycle should be re-executed
    let tickRemain := c.tickEvent.when - curTick
    let c := { c with
      tickRecover := c.tickRecover + (tickRemain + (p.period - tickRemain % p.period))
      recoverTime := 0 }
    c.tickEvent.deschedule.map (fun e => ({ c with tickEvent := e }, 1))
  else if msg.type = SimpleEnergySM.MsgType.powerOn.toInt then
    -- restore procedure
    let c := { c with
      tickRecover := c.tickRecover + p.cycleRestore * p.period
      consumed := c.consumed ++ [p.powerNormal * p.cycleRestore] }
    (c.tickEvent.schedule curTick (curTick + c.tickRecover)).map (fun e =>
      ({ c with tickEvent := e }, 1))
  else some (c, 0)

/-! ## When the next tick is due after each of them -/

section

variable {p : AtomicCpuParams} {c : AtomicCpu} {t w : Tick}

theorem handleMsg_powerOff (h : c.tickEvent.due = some w) :
    ∃ c', c.handleMsg p t ⟨SimpleEnergySM.MsgType.powerOff.toInt, 0⟩ = some (c', 1) ∧ c'.tickEvent.due = none := by
  simp only [handleMsg, if_true, Event.deschedule_of_due_some h, Option.map_some]
  exact ⟨_, rfl, rfl⟩

theorem handleMsg_powerOn (h : c.tickEvent.due = none) :
    ∃ c', c.handleMsg p t ⟨SimpleEnergySM.MsgType.powerOn.toInt, 0⟩ = some (c', 1) ∧
      c'.tickEvent.due = some (t + p.cycleRestore * p.period) := by
  have hsched := Event.schedule_of_due_none h (Nat.le_add_right t (p.cycleRestore * p.period))
  have hne : SimpleEnergySM.MsgType.powerOn.toInt ≠ SimpleEnergySM.MsgType.powerOff.toInt := by
    decide
  simp only [handleMsg, hne, if_true, if_false, Nat.zero_add, hsched, Option.map_some]
  exact ⟨_, rfl, rfl⟩

theorem virtualDeviceInterrupt_due (h : c.tickEvent.due = some w) (hle : t ≤ w) (delay : Tick) :
    ∃ c' w', c.virtualDeviceInterrupt p t delay = some c' ∧ c'.tickEvent.due = some w' ∧ w ≤ w' := by
  have hw := (Event.due_eq_some.mp h).2
  simp only [virtualDeviceInterrupt, hw]
  generalize (if delay % p.period ≠ 0 then delay + (p.period - delay % p.period) else delay) = d
  rw [Event.reschedule_of_due_some h (hle.trans (Nat.le_add_right w d))]
  exact ⟨_, w + d, rfl, rfl, Nat.le_add_right w d⟩

theorem virtualDeviceRecover_due (h : c.tickEvent.due = some w) (hle : t ≤ w) (delay : Tick) :
    ∃ c' w', c.virtualDeviceRecover t delay = some c' ∧ c'.tickEvent.due = some w' ∧ w ≤ w' := by
  have hw := (Event.due_eq_some.mp h).2
  -- taking `recover_time` off and adding at least as much again never goes back
  have hback : ∀ w r d : Nat, w ≤ w - r + (if r ≥ d then r else d) := by
    intro w r d; split <;> omega
  simp only [virtualDeviceRecover, hw]
  rw [Event.reschedule_of_due_some h (hle.trans (hback w c.recoverTime delay))]
  exact ⟨_, _, rfl, rfl, hback w c.recoverTime delay⟩

theorem tick_due (h : c.tickEvent.due = none) (latency : Tick) :
    ∃ c' w', c.tick p t latency = some c' ∧ c'.tickEvent.due = some w' ∧ t ≤ w' := by
  simp only [tick]
  generalize (if latency < p.period then p.period else latency) = l
  rw [Event.schedule_of_due_none h (Nat.le_add_right t l)]
  exact ⟨_, t + l, rfl, rfl, Nat.le_add_right t l⟩

end

end AtomicCpu
end NvpSim.Cpu
