/-
  `DVFSSM` (`engy/DVFS.{hh,cc}`): off and three levels, chosen by the energy.

  Unlike its siblings the machine has one threshold between two neighbouring states and no hysteresis: each
  branch of `update` asks for an energy strictly between two thresholds.  AT a threshold no branch is taken, and
  the machine stays in whatever state it is: off if it was off, at the highest level if it was there.
-/
import NvpSim.Energy.StateMachine
import NvpSim.Lib.Machine
import Mathlib.Tactic.Linarith

namespace NvpSim.Energy

open NvpSim.Lib

namespace Dvfssm

inductive State where
  | init
  | off
  | lvlLow
  | lvlMiddle
  | lvlHigh
  deriving DecidableEq, Repr

/-- The enumerator values of `DVFSSM::State`. -/
def State.toNat : State → Nat
  | init => 0
  | off => 1
  | lvlLow => 2
  | lvlMiddle => 3
  | lvlHigh => 4

inductive MsgType where
  | consumeEnergy
  | powerOff
  | dvfsLow
  | dvfsMiddle
  | dvfsHigh
  deriving DecidableEq, Repr

/-- The enumerator values of `DVFSSM::MsgType`. -/
def MsgType.toInt : MsgType → Int
  | consumeEnergy => 0
  | powerOff => 1
  | dvfsLow => 2
  | dvfsMiddle => 3
  | dvfsHigh => 4

/-- `DVFSSMParams`, which the constructor copies. -/
structure Params where
  thresOffLow : Rat
  thresLowMid : Rat
  thresMidHigh : Rat

end Dvfssm

open Dvfssm in
structure Dvfssm where
  state : State
  thres : Params

namespace Dvfssm

/-- `DVFSSM::DVFSSM(p)`. -/
def new (p : Params) : Dvfssm := ⟨.init, p⟩

/-- `DVFSSM::init()`: the machine, and what it broadcasts. -/
def init (sm : Dvfssm) : Dvfssm × List EnergyMsg :=
  ({ sm with state := .off }, [⟨MsgType.powerOff.toInt, 0⟩])

def update (sm : Dvfssm) (energy : Rat) : Dvfssm × List EnergyMsg :=
  if sm.state = .init then ({ sm with state := .off }, [])
  else if sm.state ≠ .off ∧ energy < sm.thres.thresOffLow then
    ({ sm with state := .off }, [⟨MsgType.powerOff.toInt, 0⟩])
  else if sm.state ≠ .lvlLow ∧ energy > sm.thres.thresOffLow ∧ energy < sm.thres.thresLowMid then
    ({ sm with state := .lvlLow }, [⟨MsgType.dvfsLow.toInt, 0⟩])
  else if sm.state ≠ .lvlMiddle ∧ energy > sm.thres.thresLowMid ∧ energy < sm.thres.thresMidHigh then
    ({ sm with state := .lvlMiddle }, [⟨MsgType.dvfsMiddle.toInt, 0⟩])
  else if sm.state ≠ .lvlHigh ∧ energy > sm.thres.thresMidHigh then
    ({ sm with state := .lvlHigh }, [⟨MsgType.dvfsHigh.toInt, 0⟩])
  else (sm, [])

instance : BaseEnergySM Dvfssm where
  -- `energy_consume_lower_bound` keeps the 0 of the base class
  energyConsumeLowerBound := fun _ => 0
  update := Dvfssm.update
  poweronDirtyPatch := fun _ => false

/-! ## Between the thresholds -/

/-- The message that tells a state. -/
def State.msg : State → EnergyMsg
  | init | off => ⟨MsgType.powerOff.toInt, 0⟩
  | lvlLow => ⟨MsgType.dvfsLow.toInt, 0⟩
  | lvlMiddle => ⟨MsgType.dvfsMiddle.toInt, 0⟩
  | lvlHigh => ⟨MsgType.dvfsHigh.toInt, 0⟩

namespace Params

structure Ordered (p : Params) : Prop where
  offLow : p.thresOffLow ≤ p.thresLowMid
  lowHigh : p.thresLowMid ≤ p.thresMidHigh

/-- The energy is none of the thresholds. -/
def Between (p : Params) (e : Rat) : Prop :=
  e ≠ p.thresOffLow ∧ e ≠ p.thresLowMid ∧ e ≠ p.thresMidHigh

/-- The state that belongs to an energy between the thresholds. -/
def stateOf (p : Params) (e : Rat) : State :=
  if e < p.thresOffLow then .off
  else if e < p.thresLowMid then .lvlLow
  else if e < p.thresMidHigh then .lvlMiddle
  else .lvlHigh

theorem stateOf_mono (p : Params) {e e' : Rat} (hle : e ≤ e') : (p.stateOf e).toNat ≤ (p.stateOf e').toNat := by
  unfold stateOf
  split_ifs with h₁ h₂ h₃ h₄ h₅ h₆ h₇ h₈ h₉ <;> first | decide | linarith

end Params

variable {sm : Dvfssm} {e : Rat}

section

variable (h : sm.state ≠ .init) (hord : sm.thres.Ordered)

include h hord

/-- **What an update does between the thresholds**: the machine goes to the state of the energy, and says so if it was
    not there. -/
theorem update_of_between (he : sm.thres.Between e) :
    sm.update e = if sm.state = sm.thres.stateOf e then (sm, [])
      else ({ sm with state := sm.thres.stateOf e }, [(sm.thres.stateOf e).msg]) := by
  have hoff := hord.offLow
  have hhigh := hord.lowHigh
  unfold update Params.stateOf
  rw [if_neg h]
  -- in each of the four intervals, the comparisons leave one branch, which asks for another state
  rcases lt_or_gt_of_ne he.1 with h₁ | h₁
  · by_cases hst : sm.state = .off
    · have h₂ := h₁.trans_le hoff
      have h₃ := h₂.trans_le hhigh
      simp [hst, h₁, h₁.not_gt, h₂.not_gt, h₃.not_gt]
    · simp [hst, h₁, State.msg]
  · rcases lt_or_gt_of_ne he.2.1 with h₂ | h₂
    · by_cases hst : sm.state = .lvlLow
      · simp [hst, h₁, h₁.not_gt, h₂, h₂.not_gt, (h₂.trans_le hhigh).not_gt]
      · simp [hst, h₁, h₁.not_gt, h₂, State.msg]
    · rcases lt_or_gt_of_ne he.2.2 with h₃ | h₃
      · by_cases hst : sm.state = .lvlMiddle
        · simp [hst, h₁.not_gt, h₂, h₂.not_gt, h₃, h₃.not_gt]
        · simp [hst, h₁.not_gt, h₂, h₂.not_gt, h₃, State.msg]
      · by_cases hst : sm.state = .lvlHigh
        · simp [hst, h₁.not_gt, h₂.not_gt, h₃.not_gt]
        · simp [hst, h₁.not_gt, h₂.not_gt, h₃, h₃.not_gt, State.msg]

/-- **At a threshold an update does nothing.** -/
theorem update_of_not_between (he : ¬ sm.thres.Between e) : sm.update e = (sm, []) := by
  have hoff := hord.offLow
  have hhigh := hord.lowHigh
  have hthres : e = sm.thres.thresOffLow ∨ e = sm.thres.thresLowMid ∨ e = sm.thres.thresMidHigh := by
    by_contra hne
    rw [not_or, not_or] at hne
    exact he hne
  unfold update
  rw [if_neg h, if_neg, if_neg, if_neg, if_neg]
  · rintro ⟨-, hgt⟩
    rcases hthres with rfl | rfl | rfl <;> linarith
  · rintro ⟨-, hgt, hlt⟩
    rcases hthres with rfl | rfl | rfl <;> linarith
  · rintro ⟨-, hgt, hlt⟩
    rcases hthres with rfl | rfl | rfl <;> linarith
  · rintro ⟨-, hlt⟩
    rcases hthres with rfl | rfl | rfl <;> linarith

theorem update_msgs (e : Rat) : (sm.update e).2 =
      if (sm.update e).1.state = sm.state then [] else [(sm.update e).1.state.msg] := by
  by_cases he : sm.thres.Between e
  · rw [update_of_between h hord he]
    split
    · rw [if_pos rfl]
    · rename_i hne
      rw [if_neg (Ne.symm hne)]
  · rw [update_of_not_between h hord he, if_pos rfl]

end

/-! ## Runs -/

/-- What happens to a machine: `init()`, or an update.  The start-up harvest of `EnergyMgmt::init()` updates the
    machine too, and that may be before its own `init()`. -/
def call (sm : Dvfssm) : Option Rat → Dvfssm × List EnergyMsg
  | none => sm.init
  | some e => sm.update e

/-- The machine after some calls. -/
def after (p : Params) (cs : List (Option Rat)) : Dvfssm := Machine.state call (new p) cs

theorem after_snoc (p : Params) (cs : List (Option Rat)) (e : Rat) :
    after p (cs ++ [some e]) = ((after p cs).update e).1 := Machine.state_snoc _ cs (some e)

theorem call_inv (hord : sm.thres.Ordered) (c : Option Rat) :
    (sm.call c).1.thres = sm.thres ∧ (sm.call c).1.state ≠ .init := by
  cases c with
  | none => exact ⟨rfl, State.noConfusion⟩
  | some e =>
    show (sm.update e).1.thres = _ ∧ (sm.update e).1.state ≠ _
    by_cases hst : sm.state = .init
    · rw [update, if_pos hst]
      exact ⟨rfl, State.noConfusion⟩
    by_cases he : sm.thres.Between e
    · rw [update_of_between hst hord he]
      split
      · exact ⟨rfl, hst⟩
      · refine ⟨rfl, ?_⟩
        show sm.thres.stateOf e ≠ .init
        unfold Params.stateOf
        split_ifs <;> decide
    · rw [update_of_not_between hst hord he]
      exact ⟨rfl, hst⟩

variable {p : Params} {cs : List (Option Rat)}

theorem after_thres (hord : p.Ordered) (cs : List (Option Rat)) : (after p cs).thres = p :=
  Machine.state_inv (P := fun sm : Dvfssm => sm.thres = p)
    (fun _ c h => (call_inv (h ▸ hord) c).1.trans h) rfl cs

theorem after_ordered (hord : p.Ordered) (cs : List (Option Rat)) : (after p cs).thres.Ordered := by
  rw [after_thres hord]
  exact hord

/-- A machine is only uninitialised until its first call. -/
theorem after_state_ne (hord : p.Ordered) (hcs : cs ≠ []) : (after p cs).state ≠ .init := by
  obtain ⟨cs, c, rfl⟩ := (List.eq_nil_or_concat' cs).resolve_left hcs
  rw [after, Machine.state_snoc]
  exact (call_inv (after_ordered hord cs) c).2

/-- The last energy alone decides the state, from the second call on. -/
def Decides (p : Params) (e : Rat) (st : State) : Prop :=
  ∀ cs, cs ≠ [] → (after p (cs ++ [some e])).state = st

theorem decides_stateOf (hord : p.Ordered) (he : p.Between e) : Decides p e (p.stateOf e) := by
  intro cs hcs
  have hthres := after_thres hord cs
  rw [after_snoc, update_of_between (after_state_ne hord hcs) (after_ordered hord cs) (by rw [hthres]; exact he), hthres]
  split
  · rename_i heq
    exact heq
  · rfl

theorem after_not_between (hord : p.Ordered) (he : ¬ p.Between e) (hcs : cs ≠ []) :
    (after p (cs ++ [some e])).state = (after p cs).state := by
  rw [after_snoc, update_of_not_between (after_state_ne hord hcs) (after_ordered hord cs)
    (by rw [after_thres hord]; exact he)]

theorem after_high (hord : p.Ordered) (he : p.thresMidHigh < e) (hcs : cs ≠ []) :
    (after p (cs ++ [some e])).state = .lvlHigh := by
  have hmid := hord.lowHigh.trans_lt he
  have hlow := hord.offLow.trans_lt hmid
  rw [decides_stateOf hord ⟨hlow.ne', hmid.ne', he.ne'⟩ cs hcs]
  unfold Params.stateOf
  rw [if_neg hlow.not_gt, if_neg hmid.not_gt, if_neg he.not_gt]

/-- **`DVFSSM` is memoryless between its thresholds, and only there.**  From its second call on, an energy decides the
    state exactly if it is none of the thresholds; a higher energy then decides a state that is not lower; and a
    message is sent exactly when the state changes.  A first update goes to off, and says nothing. -/
theorem dvfs_memoryless_iff (hord : p.Ordered) : (∀ e, (∃ st, Decides p e st) ↔ p.Between e) ∧
      (∀ e e' st st', Decides p e st → Decides p e' st' → e ≤ e' → st.toNat ≤ st'.toNat) ∧
      (∀ cs, cs ≠ [] → ∀ e, ((after p cs).update e).2 =
        if (after p (cs ++ [some e])).state = (after p cs).state then []
        else [(after p (cs ++ [some e])).state.msg]) ∧
      ∀ e, (new p).update e = ({ new p with state := .off }, []) := by
  have hone : [none] ≠ ([] : List (Option Rat)) := List.cons_ne_nil _ _
  have hiff : ∀ e, (∃ st, Decides p e st) ↔ p.Between e := by
    intro e
    constructor
    · rintro ⟨st, hst⟩
      by_contra he
      -- the histories: `init` alone, and one energy above all thresholds after it
      have hlow : (after p ([none] ++ [some e])).state = .off := after_not_between hord he hone
      have hhigh : (after p (([none] ++ [some (p.thresMidHigh + 1)]) ++ [some e])).state = .lvlHigh :=
        (after_not_between hord he (by simp)).trans (after_high hord (by linarith) hone)
      cases (hlow.symm.trans (hst _ hone)).trans ((hst _ (by simp)).symm.trans hhigh)
    · intro he
      exact ⟨_, decides_stateOf hord he⟩
  refine ⟨hiff, ?_, ?_, fun _ => rfl⟩
  · intro e e' st st' hst hst' hle
    have he := (hiff e).mp ⟨st, hst⟩
    have he' := (hiff e').mp ⟨st', hst'⟩
    rw [← hst _ hone, ← hst' _ hone, decides_stateOf hord he _ hone, decides_stateOf hord he' _ hone]
    exact p.stateOf_mono hle
  · intro cs hcs e
    rw [after_snoc]
    exact update_msgs (after_state_ne hord hcs) (after_ordered hord cs) e

/-- The thresholds 10, 20 and 30. -/
def demoThres : Params := ⟨10, 20, 30⟩

theorem demoThres_ordered : demoThres.Ordered := by
  constructor <;> decide +kernel

/-- The theorem at 15: low, whatever was before. -/
theorem dvfs_memoryless_low :
    demoThres.Ordered ∧ (after demoThres [none, some 15]).state = .lvlLow ∧ ∃ st, Decides demoThres 15 st :=
  ⟨demoThres_ordered, by decide +kernel,
    ((dvfs_memoryless_iff demoThres_ordered).1 15).mpr (by unfold Params.Between; decide +kernel)⟩

/-- At 20, the middle threshold: off after `init`, high after 35. -/
theorem dvfs_remembers_at_threshold : demoThres.Ordered ∧ (after demoThres [none, some 20]).state = .off ∧
      (after demoThres [none, some 35, some 20]).state = .lvlHigh ∧ ¬ ∃ st, Decides demoThres 20 st := by
  have hlow : (after demoThres ([none] ++ [some 20])).state = .off := by decide +kernel
  have hhigh : (after demoThres ([none, some 35] ++ [some 20])).state = .lvlHigh := by decide +kernel
  refine ⟨demoThres_ordered, hlow, hhigh, ?_⟩
  rintro ⟨st, hst⟩
  cases (hlow.symm.trans (hst _ (by simp))).trans ((hst _ (by simp)).symm.trans hhigh)

end Dvfssm

end NvpSim.Energy
