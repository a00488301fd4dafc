/-
  `SM_Retention` (`engy/SM_Retention.{hh,cc}`): an energy state machine with a third state between on and
  off, in which the system keeps its state but does not run.

  It numbers its own messages, as every state machine does.  POWER_OFF has the number that it has for
  `SimpleEnergySM`; the new message POWER_RET has taken the number 2, and POWER_ON has moved to 3.
-/
import NvpSim.Energy.StateMachine

namespace NvpSim.Energy

namespace SMRetention

inductive State where
  | powerOff
  | powerRetention
  | powerOn
  deriving DecidableEq, Repr

inductive MsgType where
  | consumeEnergy
  | powerOff
  | powerRet
  | powerOn
  deriving DecidableEq, Repr

/-- The enumerator values of `SM_Retention::MsgType`. -/
def MsgType.toInt : MsgType → Int
  | consumeEnergy => 0
  | powerOff => 1
  | powerRet => 2
  | powerOn => 3

end SMRetention

open SMRetention in
structure SMRetention where
  state : State
  thresRetToOff : Rat
  thres1ToRet : Rat
  thresRetTo1 : Rat
  outageTimes : Nat

namespace SMRetention

/-- `SM_Retention::SM_Retention(p)`. -/
def new (thresRetToOff thres1ToRet thresRetTo1 : Rat) : SMRetention where
  state := .powerOff
  thresRetToOff := thresRetToOff
  thres1ToRet := thres1ToRet
  thresRetTo1 := thresRetTo1
  outageTimes := 0

/-- `SM_Retention::init()`: the machine, and what it broadcasts. -/
def init (sm : SMRetention) : SMRetention × List EnergyMsg :=
  ({ sm with state := .powerOff }, [⟨MsgType.powerOff.toInt, 0⟩])

def update (sm : SMRetention) (energy : Rat) : SMRetention × List EnergyMsg :=
  -- power failure
  if (sm.state = .powerOn ∨ sm.state = .powerRetention) ∧ energy ≤ sm.thresRetToOff then
    ({ sm with state := .powerOff, outageTimes := sm.outageTimes + 1 }, [⟨MsgType.powerOff.toInt, 0⟩])
  -- power retention
  else if sm.state = .powerOn ∧ energy ≤ sm.thres1ToRet then
    ({ sm with state := .powerRetention }, [⟨MsgType.powerRet.toInt, 0⟩])
  -- power recovery
  else if (sm.state = .powerOff ∨ sm.state = .powerRetention) ∧ energy ≥ sm.thresRetTo1 then
    ({ sm with state := .powerOn }, [⟨MsgType.powerOn.toInt, 0⟩])
  else (sm, [])

instance : BaseEnergySM SMRetention where
  -- the constructor assigns `energy_consume_lower_bound = thres_ret_to_off`, nothing changes it
  energyConsumeLowerBound := SMRetention.thresRetToOff
  update := SMRetention.update
  poweronDirtyPatch := fun _ => false

/-- At this energy a machine that is on goes into retention. -/
def Retains (sm : SMRetention) (energy : Rat) : Prop :=
  sm.state = .powerOn ∧ sm.thresRetToOff < energy ∧ energy ≤ sm.thres1ToRet

instance (sm : SMRetention) (energy : Rat) : Decidable (sm.Retains energy) :=
  inferInstanceAs (Decidable (_ ∧ _ ∧ _))

/-- **POWER_RET is broadcast exactly when the machine goes into retention.** -/
theorem powerRet_mem_update (sm : SMRetention) (energy : Rat) :
    (∃ msg ∈ (sm.update energy).2, msg.type = MsgType.powerRet.toInt) ↔ sm.Retains energy := by
  have hoff : MsgType.powerOff.toInt ≠ MsgType.powerRet.toInt := by decide
  have hon : MsgType.powerOn.toInt ≠ MsgType.powerRet.toInt := by decide
  unfold update Retains
  split
  · rename_i h
    constructor
    · rintro ⟨msg, hmsg, htype⟩
      rw [List.mem_singleton.mp hmsg] at htype
      exact absurd htype hoff
    · rintro ⟨-, hlt, -⟩
      exact absurd h.2 (not_le.mpr hlt)
  · rename_i hfail
    split
    · rename_i h
      constructor
      · intro _
        refine ⟨h.1, ?_, h.2⟩
        by_contra hle
        exact hfail ⟨Or.inl h.1, not_lt.mp hle⟩
      · intro _
        exact ⟨_, List.mem_singleton_self _, rfl⟩
    · rename_i hret
      constructor
      · rintro ⟨msg, hmsg, htype⟩
        split at hmsg
        · rw [List.mem_singleton.mp hmsg] at htype
          exact absurd htype hon
        · cases hmsg
      · rintro ⟨hstate, -, hle⟩
        exact absurd ⟨hstate, hle⟩ hret

end SMRetention

end NvpSim.Energy
