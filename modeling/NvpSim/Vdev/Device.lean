/-
  The virtual device (`vdev/vdev.{hh,cc}`): a peripheral that loses its volatile state at a power failure and is
  re-initialised at power-on.

  The device owns a memory `pmem` whose FIRST byte is the status byte the CPU reads, two events that both run
  `triggerInterrupt`, and two words of recovery state: `need_recover`, and `delay_remained`, the time left of a
  task that a power failure interrupted.  They are written by `access` (the CPU reads, writes, or commands INIT
  / ACTIVATE through byte 0), `handleMsg` (POWER_OFF and POWER_ON) and `triggerInterrupt` (an event fires).

  A failed `assert`, of the device or of the event queue, is `none`.  The energy `tick()`, the `devicedata` log
  file and the debug texts are left out.
-/
import NvpSim.Lib.Flags
import NvpSim.Sim.Event
import NvpSim.Energy.StateMachine

namespace NvpSim.Vdev

open NvpSim.Sim NvpSim.Lib NvpSim.Energy

/-! ## The status byte -/

/-- The flags of the first byte of `pmem`. -/
inductive Flag where
  | init
  | activate
  | chaos
  | ready
  | busy
  | idle
  deriving DecidableEq, Repr

namespace Flag

/-- `VDEV_INIT` … `VDEV_IDLE`. -/
def mask : Flag → BitVec 8
  | init => 0x80#8
  | activate => 0x40#8
  | chaos => 0x08#8
  | ready => 0x04#8
  | busy => 0x02#8
  | idle => 0x01#8

/-- The position of a flag; every mask is a single bit (`mask_eq_twoPow`). -/
def bit : Flag → Nat
  | init => 7
  | activate => 6
  | chaos => 3
  | ready => 2
  | busy => 1
  | idle => 0

theorem mask_eq_twoPow (f : Flag) : f.mask = BitVec.twoPow 8 f.bit := by cases f <;> rfl

theorem bit_lt (f : Flag) : f.bit < 8 := by cases f <;> decide

theorem bit_inj {f g : Flag} : f.bit = g.bit ↔ f = g := by cases f <;> cases g <;> decide

end Flag

/-! ## The device -/

inductive VdevEngyState where
  | powerOff
  | sleep
  | normal
  | active
  deriving DecidableEq, Repr

/-- The calls the device makes on its CPU, with their arguments. -/
inductive CpuCall where
  | virtualDeviceInterrupt (vdevName : String) (delay : Tick)
  | virtualDeviceRecover (vdevName : String) (delay : Tick)
  | virtualDeviceStart (id : Nat)
  | virtualDeviceEnd (id : Nat)
  deriving DecidableEq, Repr

/-- `VirtualDeviceParams`; `range` is `[rangeStart, rangeStart + rangeSize)`. -/
structure VirtualDeviceParams where
  id : Nat
  needLog : Bool
  rangeStart : Nat
  rangeSize : Nat
  delaySet : Tick
  delaySelf : Tick
  delayCpuInterrupt : Tick
  isInterruptable : Bool

/-- `sprintf(dev_name, "VDEV-%d", id)`. -/
def VirtualDeviceParams.devName (p : VirtualDeviceParams) : String := "VDEV-" ++ toString p.id

/-- The state of a `VirtualDevice`. -/
structure VirtualDevice where
  pmem : Nat → BitVec 8
  needRecover : Bool
  delayRemained : Tick
  vdevEnergyState : VdevEngyState
  eventInterrupt : Event
  eventInit : Event
  accessTime : Nat
  cpuCalls : List CpuCall

/-- A packet as the device reads it. -/
inductive Packet where
  | read (addr size : Nat)
  | write (addr : Nat) (data : List (BitVec 8))

namespace VirtualDevice

/-- The constructor: `pmem` zeroed, `delay_remained` zero whatever the parameter says. -/
def new : VirtualDevice where
  pmem := fun _ => 0#8
  needRecover := false
  delayRemained := 0
  vdevEnergyState := .powerOff
  eventInterrupt := .fresh
  eventInit := .fresh
  accessTime := 0
  cpuCalls := []

/-- `*pmem`. -/
def status (d : VirtualDevice) : BitVec 8 := d.pmem 0

/-- Assign the byte `*pmem`. -/
def setStatus (d : VirtualDevice) (b : BitVec 8) : VirtualDevice :=
  { d with pmem := fun i => if i = 0 then b else d.pmem i }

/-- `*pmem & f`. -/
def has (d : VirtualDevice) (f : Flag) : Bool := hasFlag d.status f.mask

/-- `*pmem |= f`. -/
def set (d : VirtualDevice) (f : Flag) : VirtualDevice := d.setStatus (setFlag d.status f.mask)

/-- `*pmem &= ~f`. -/
def clear (d : VirtualDevice) (f : Flag) : VirtualDevice :=
  d.setStatus (clearFlag d.status f.mask)

/-- A call on the CPU object. -/
def call (d : VirtualDevice) (c : CpuCall) : VirtualDevice :=
  { d with cpuCalls := d.cpuCalls ++ [c] }

/-! ## `triggerInterrupt` -/

/-- The initialisation branch: ready, and restart the task a power failure interrupted. -/
def initReturn (p : VirtualDeviceParams) (curTick : Tick) (d : VirtualDevice) : Option VirtualDevice :=
  let d := (d.set .ready).clear .chaos
  let d := (d.call (.virtualDeviceInterrupt p.devName 0)).call (.virtualDeviceEnd p.id)
  if 0 < d.delayRemained then
    (d.eventInterrupt.schedule curTick (curTick + d.delayRemained)).map (fun e =>
      let d := { d with eventInterrupt := e }.call (.virtualDeviceRecover p.devName d.delayRemained)
      let d := { d.set .busy with vdevEnergyState := .active }
      d.call (.virtualDeviceStart p.id))
  else some d

/-- The actuation branch: the task is complete. -/
def actuationReturn (p : VirtualDeviceParams) (d : VirtualDevice) : VirtualDevice :=
  let d := { d with delayRemained := 0 }
  (d.call (.virtualDeviceInterrupt p.devName p.delayCpuInterrupt)).call (.virtualDeviceEnd p.id)

def triggerInterrupt (p : VirtualDeviceParams) (curTick : Tick) (d : VirtualDevice) : Option VirtualDevice :=
  if d.has .busy then
    let d := { (d.set .idle).clear .busy with vdevEnergyState := .normal }
    if d.has .chaos then d.initReturn p curTick else some (d.actuationReturn p)
  else none

/-! ## `access` -/

/-- The INIT command: discarded while busy, otherwise run the initialisation. -/
def commandInit (p : VirtualDeviceParams) (curTick : Tick) (d : VirtualDevice) : Option VirtualDevice :=
  if d.has .busy then some d
  else
    let d := { d with vdevEnergyState := .normal }
    let d := (d.set .busy).clear .idle
    (d.eventInit.schedule curTick (curTick + p.delaySet)).map (fun e => { d with eventInit := e })

/-- The ACTIVATE command: discarded before initialisation and while busy. -/
def commandActivate (p : VirtualDeviceParams) (curTick : Tick) (d : VirtualDevice) : Option VirtualDevice :=
  if d.has .chaos then some d
  else if d.has .busy then some d
  else
    let d := { d with vdevEnergyState := .active }
    let d := { d with accessTime := if p.needLog then d.accessTime + 1 else d.accessTime }
    let d := (d.set .busy).clear .idle
    (d.eventInterrupt.schedule curTick (curTick + p.delaySelf)).map (fun e =>
      { d with eventInterrupt := e }.call (.virtualDeviceStart p.id))

/-- `memcpy(pmem + offset, data, size)`. -/
def writeMem (d : VirtualDevice) (offset : Nat) (data : List (BitVec 8)) : VirtualDevice :=
  { d with pmem := fun i =>
      if offset ≤ i ∧ i < offset + data.length then data.getD (i - offset) 0#8 else d.pmem i }

/-- `access(pkt)`: the device and the packet's data afterwards. -/
def access (p : VirtualDeviceParams) (curTick : Tick) (d : VirtualDevice) :
    Packet → Option (VirtualDevice × List (BitVec 8))
  | .read addr size =>
    let offset := addr - p.rangeStart
    some (d, (List.range size).map (fun i => d.pmem (offset + i)))
  | .write addr data =>
    let offset := addr - p.rangeStart
    if offset = 0 then
      -- the command byte: INIT is looked at before ACTIVATE
      if hasFlag (data.getD 0 0#8) Flag.init.mask then
        (d.commandInit p curTick).map (fun d => (d, data))
      else if hasFlag (data.getD 0 0#8) Flag.activate.mask then
        (d.commandActivate p curTick).map (fun d => (d, data))
      else some (d, data)
    else some (d.writeMem offset data, data)

/-! ## `handleMsg` -/

/-- Reset the byte to uninitialised. -/
def resetStatus (d : VirtualDevice) : VirtualDevice :=
  (((d.set .chaos).clear .ready).clear .busy).clear .idle

/-- POWER_OFF: drop the running event, remember what it was, reset the byte. -/
def powerOff (p : VirtualDeviceParams) (curTick : Tick) (d : VirtualDevice) : Option VirtualDevice :=
  let d := { d with vdevEnergyState := .powerOff }
  let dropped : Option VirtualDevice :=
    -- a. ready but not busy: no task on working
    if d.has .ready ∧ ¬ d.has .busy then
      some { d with needRecover := true, delayRemained := 0 }
    -- b. not ready but busy: init task on working
    else if ¬ d.has .ready ∧ d.has .busy then
      d.eventInit.deschedule.map (fun e =>
        { d with eventInit := e, needRecover := true, delayRemained := 0 })
    -- c. ready and busy: a task to restart
    else if d.has .ready ∧ d.has .busy then
      d.eventInterrupt.deschedule.map (fun e =>
        { d with
          eventInterrupt := e
          needRecover := true
          delayRemained := if ¬ p.isInterruptable then p.delaySelf else e.when - curTick })
    else some d
  dropped.map resetStatus

/-- POWER_ON: re-initialise a device that had been initialised or was being initialised. -/
def powerOn (p : VirtualDeviceParams) (curTick : Tick) (d : VirtualDevice) : Option VirtualDevice :=
  if d.needRecover then
    (d.eventInit.schedule curTick (curTick + p.delaySet)).map (fun e =>
      let d := { d with eventInit := e, vdevEnergyState := .normal }.set .busy
      (d.call (.virtualDeviceRecover p.devName p.delaySet)).call (.virtualDeviceStart p.id))
  else some (d.clear .busy)

/-- `handleMsg(msg)`: the device and the return code; other message types are not recognised. -/
def handleMsg (p : VirtualDeviceParams) (curTick : Tick) (d : VirtualDevice) (msg : EnergyMsg) :
    Option (VirtualDevice × Int) :=
  if msg.type = SimpleEnergySM.MsgType.powerOff.toInt then
    (d.powerOff p curTick).map (fun d => (d, 1))
  else if msg.type = SimpleEnergySM.MsgType.powerOn.toInt then
    (d.powerOn p curTick).map (fun d => (d, 1))
  else some (d, 0)

/-! ## Flags against flags, and what the other updates leave alone -/

section

variable (d : VirtualDevice) (f g : Flag)

@[simp] theorem has_set : (d.set f).has g = (d.has g || decide (f = g)) := by
  unfold has set status setStatus
  simp only [if_true, Flag.mask_eq_twoPow]
  rw [hasFlag_setFlag_twoPow _ g.bit_lt]
  simp only [Flag.bit_inj]

@[simp] theorem has_clear : (d.clear f).has g = (d.has g && !decide (f = g)) := by
  unfold has clear status setStatus
  simp only [if_true, Flag.mask_eq_twoPow]
  rw [hasFlag_clearFlag_twoPow _ g.bit_lt]
  simp only [Flag.bit_inj]

@[simp] theorem has_call (c : CpuCall) : (d.call c).has f = d.has f := rfl

-- an update of any other field leaves the byte: unfold the test at a record, fold it at a variable
@[simp] theorem has_mk (pmem : Nat → BitVec 8) (nr : Bool) (dr : Tick) (st : VdevEngyState)
    (e e' : Event) (n : Nat) (cs : List CpuCall) :
    (VirtualDevice.mk pmem nr dr st e e' n cs).has f = hasFlag (pmem 0) f.mask := rfl

@[simp] theorem hasFlag_pmem : hasFlag (d.pmem 0) f.mask = d.has f := rfl

@[simp] theorem set_frame : (d.set f).eventInit = d.eventInit ∧ (d.set f).eventInterrupt = d.eventInterrupt ∧
      (d.set f).needRecover = d.needRecover ∧ (d.set f).delayRemained = d.delayRemained :=
  ⟨rfl, rfl, rfl, rfl⟩

@[simp] theorem clear_frame : (d.clear f).eventInit = d.eventInit ∧ (d.clear f).eventInterrupt = d.eventInterrupt ∧
      (d.clear f).needRecover = d.needRecover ∧ (d.clear f).delayRemained = d.delayRemained :=
  ⟨rfl, rfl, rfl, rfl⟩

@[simp] theorem call_frame (c : CpuCall) :
    (d.call c).eventInit = d.eventInit ∧ (d.call c).eventInterrupt = d.eventInterrupt ∧
      (d.call c).needRecover = d.needRecover ∧ (d.call c).delayRemained = d.delayRemained :=
  ⟨rfl, rfl, rfl, rfl⟩

theorem has_of_byte {d d' : VirtualDevice} (h : d'.pmem 0 = d.pmem 0) (f : Flag) :
    d'.has f = d.has f := congrArg (hasFlag · f.mask) h

end

end VirtualDevice
end NvpSim.Vdev
