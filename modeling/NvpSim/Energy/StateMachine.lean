/-
  Energy state machines (`engy/state_machine.{hh,cc}`) and the messages they broadcast.

  `EnergyMgmt` talks to its `BaseEnergySM` through `update(_energy)`, which may broadcast messages, and
  `energy_consume_lower_bound`.  The class `BaseEnergySM` is that interface, so the energy manager is modelled
  ONCE, over any state machine.  `DFS_LRY_poweron_dirty_patch`, a global that the manager reads, is part of it;
  it is constantly `false` for every machine that is not `DFS_LRY`.
-/
import Mathlib.Algebra.Order.Field.Rat

namespace NvpSim.Energy

/-- `EnergyMsg`: the type is a plain integer, each state machine numbering its own messages. -/
structure EnergyMsg where
  type : Int
  val : Rat
  deriving DecidableEq

/-- The virtual interface of `BaseEnergySM` as `EnergyMgmt` uses it. -/
class BaseEnergySM (M : Type) where
  /-- `energy_consume_lower_bound`: below it the system cannot consume energy. -/
  energyConsumeLowerBound : M → Rat
  /-- `update(_energy)`: the next machine and the messages handed to `broadcastMsg`, in order. -/
  update : M → Rat → M × List EnergyMsg
  /-- `DFS_LRY_poweron_dirty_patch`: does the system leak at the next harvest? -/
  poweronDirtyPatch : M → Bool

namespace SimpleEnergySM

inductive State where
  | powerOff
  | powerOn
  deriving DecidableEq, Repr

inductive MsgType where
  | consumeEnergy
  | powerOff
  | powerOn
  deriving DecidableEq, Repr

/-- The enumerator values of `SimpleEnergySM::MsgType`. -/
def MsgType.toInt : MsgType → Int
  | consumeEnergy => 0
  | powerOff => 1
  | powerOn => 2

end SimpleEnergySM

open SimpleEnergySM in
/-- `SimpleEnergySM`: one threshold to switch off, one to switch on. -/
structure SimpleEnergySM where
  state : State
  thres1ToOff : Rat
  thresOffTo1 : Rat
  outageTimes : Nat

namespace SimpleEnergySM

/-- `SimpleEnergySM::SimpleEnergySM(p)`. -/
def new (thres1ToOff thresOffTo1 : Rat) : SimpleEnergySM where
  state := .powerOff
  thres1ToOff := thres1ToOff
  thresOffTo1 := thresOffTo1
  outageTimes := 0

/-- `SimpleEnergySM::init()`: the machine, and what it broadcasts. -/
def init (sm : SimpleEnergySM) : SimpleEnergySM × List EnergyMsg :=
  ({ sm with state := .powerOff }, [⟨MsgType.powerOff.toInt, 0⟩])

def update (sm : SimpleEnergySM) (energy : Rat) : SimpleEnergySM × List EnergyMsg :=
  -- power failure
  if sm.state = .powerOn ∧ energy ≤ sm.thres1ToOff then
    ({ sm with state := .powerOff, outageTimes := sm.outageTimes + 1 }, [⟨MsgType.powerOff.toInt, 0⟩])
  -- power recovery
  else if sm.state = .powerOff ∧ energy ≥ sm.thresOffTo1 then
    ({ sm with state := .powerOn }, [⟨MsgType.powerOn.toInt, 0⟩])
  else (sm, [])

instance : BaseEnergySM SimpleEnergySM where
  -- the constructor assigns `energy_consume_lower_bound = thres_1_to_off`, nothing changes it
  energyConsumeLowerBound := SimpleEnergySM.thres1ToOff
  update := SimpleEnergySM.update
  poweronDirtyPatch := fun _ => false

end SimpleEnergySM
end NvpSim.Energy
