/-
  `DFS_LRY` (`engy/DFS_LRY.{hh,cc}`): an energy state machine with five frequencies above a retention state and
  off.

  Every branch of `update` goes up a level, down a level, or stays (`update_spec`), and with ordered thresholds
  the machine is a ladder in the sense of `Lib.Ladder`: a constant energy moves it one way (`settles`).
-/
import NvpSim.Energy.StateMachine
import NvpSim.Lib.Ladder

namespace NvpSim.Energy

open NvpSim.Lib

namespace DfsLry

inductive State where
  | init
  | powerOff
  | retention
  | freq1
  | freq2
  | freq3
  | freq4
  | freq5
  deriving DecidableEq, Repr

/-- The enumerator values of `DFS_LRY::State`. -/
def State.toNat : State → Nat
  | init => 0
  | powerOff => 1
  | retention => 2
  | freq1 => 3
  | freq2 => 4
  | freq3 => 5
  | freq4 => 6
  | freq5 => 7

inductive MsgType where
  | consumeEnergy
  | powerOff
  | powerOn
  | freq1to2
  | freq2to3
  | freq3to4
  | freq4to5
  | freq5to4
  | freq4to3
  | freq3to2
  | freq2to1
  | retentionBeg
  | retentionEnd
  deriving DecidableEq, Repr

/-- The enumerator values of `DFS_LRY::MsgType`. -/
def MsgType.toInt : MsgType → Int
  | consumeEnergy => 0
  | powerOff => 1
  | powerOn => 2
  | freq1to2 => 3
  | freq2to3 => 4
  | freq3to4 => 5
  | freq4to5 => 6
  | freq5to4 => 7
  | freq4to3 => 8
  | freq3to2 => 9
  | freq2to1 => 10
  | retentionBeg => 11
  | retentionEnd => 12

/-- `DFS_LRYParams`, which the constructor copies. -/
structure Params where
  thres5To4 : Rat
  thres4To3 : Rat
  thres3To2 : Rat
  thres2To1 : Rat
  thres1ToRetention : Rat
  thresRetentionToOff : Rat
  thresOffTo1 : Rat
  thresRetentionTo1 : Rat
  thres1To2 : Rat
  thres2To3 : Rat
  thres3To4 : Rat
  thres4To5 : Rat
  deriving DecidableEq

end DfsLry

open DfsLry in
structure DfsLry where
  state : State
  thres : Params
  /-- `DFS_LRY_poweron_dirty_patch`. -/
  poweronDirtyPatch : Bool
  deriving DecidableEq

namespace DfsLry

/-- `DFS_LRY::DFS_LRY(p)`. -/
def new (p : Params) : DfsLry where
  state := .init
  thres := p
  poweronDirtyPatch := false

/-- `DFS_LRY::init()`: the machine, and what it broadcasts. -/
def init (sm : DfsLry) : DfsLry × List EnergyMsg :=
  ({ sm with state := .powerOff }, [⟨MsgType.powerOff.toInt, 0⟩])

/-- A branch of `update`: the new state and the message that is broadcast. -/
def moves (sm : DfsLry) (st : State) (type : MsgType) : DfsLry × List EnergyMsg :=
  ({ sm with state := st }, [⟨type.toInt, 0⟩])

def update (sm : DfsLry) (energy : Rat) : DfsLry × List EnergyMsg :=
  -- initialization
  if sm.state = .init then ({ sm with state := .powerOff }, [])
  -- change from higher freq to lower freq
  else if sm.state = .freq5 ∧ energy ≤ sm.thres.thres5To4 then sm.moves .freq4 .freq5to4
  else if sm.state = .freq4 ∧ energy ≤ sm.thres.thres4To3 then sm.moves .freq3 .freq4to3
  else if sm.state = .freq3 ∧ energy ≤ sm.thres.thres3To2 then sm.moves .freq2 .freq3to2
  else if sm.state = .freq2 ∧ energy ≤ sm.thres.thres2To1 then sm.moves .freq1 .freq2to1
  -- change from lower freq to higher freq
  else if sm.state = .freq4 ∧ energy > sm.thres.thres4To5 then sm.moves .freq5 .freq4to5
  else if sm.state = .freq3 ∧ energy > sm.thres.thres3To4 then sm.moves .freq4 .freq3to4
  else if sm.state = .freq2 ∧ energy > sm.thres.thres2To3 then sm.moves .freq3 .freq2to3
  else if sm.state = .freq1 ∧ energy > sm.thres.thres1To2 then sm.moves .freq2 .freq1to2
  -- beg retention
  else if sm.state = .freq1 ∧ energy ≤ sm.thres.thres1ToRetention then
    sm.moves .retention .retentionBeg
  -- end retention
  else if sm.state = .retention ∧ energy > sm.thres.thresRetentionTo1 then
    sm.moves .freq1 .retentionEnd
  -- power on
  else if sm.state = .powerOff ∧ energy > sm.thres.thresOffTo1 then
    moves { sm with poweronDirtyPatch := true } .freq1 .powerOn
  -- power off
  else if sm.state = .retention ∧ energy ≤ sm.thres.thresRetentionToOff then
    moves { sm with poweronDirtyPatch := false } .powerOff .powerOff
  else (sm, [])

instance : BaseEnergySM DfsLry where
  -- the constructor assigns `energy_consume_lower_bound = thres_1_to_retention-1`
  energyConsumeLowerBound := fun sm => sm.thres.thres1ToRetention - 1
  update := DfsLry.update
  poweronDirtyPatch := DfsLry.poweronDirtyPatch

/-! ## Which way a state goes

Each state has at most one threshold in each direction.  The two are tested in an order that depends on the state, so
`rises` and `falls` may both be true of an energy if the thresholds of one state are not in the usual order. -/

variable {sm : DfsLry}

namespace State

/-- Where a state goes if the energy is high. -/
def above : State → State
  | init => powerOff
  | powerOff | retention => freq1
  | freq1 => freq2
  | freq2 => freq3
  | freq3 => freq4
  | freq4 | freq5 => freq5

/-- Where a state goes if the energy is low. -/
def below : State → State
  | init => init
  | powerOff | retention => powerOff
  | freq1 => retention
  | freq2 => freq1
  | freq3 => freq2
  | freq4 => freq3
  | freq5 => freq4

/-- The states that look at the threshold to the higher state first. -/
def looksUp : State → Bool
  | init | powerOff | retention | freq1 => true
  | freq2 | freq3 | freq4 | freq5 => false

theorem toNat_le_above (st : State) : st.toNat ≤ st.above.toNat := by cases st <;> decide

theorem below_toNat_le (st : State) : st.below.toNat ≤ st.toNat := by cases st <;> decide

theorem toNat_le_below (st : State) : st.toNat ≤ st.below.toNat + 1 := by cases st <;> decide

end State

/-- The energy is above the threshold to the next higher state. -/
def rises (sm : DfsLry) (e : Rat) : Prop :=
  match sm.state with
  | .init => True
  | .powerOff => sm.thres.thresOffTo1 < e
  | .retention => sm.thres.thresRetentionTo1 < e
  | .freq1 => sm.thres.thres1To2 < e
  | .freq2 => sm.thres.thres2To3 < e
  | .freq3 => sm.thres.thres3To4 < e
  | .freq4 => sm.thres.thres4To5 < e
  | .freq5 => False

/-- The energy is at or below the threshold to the next lower state. -/
def falls (sm : DfsLry) (e : Rat) : Prop :=
  match sm.state with
  | .init => False
  | .powerOff => False
  | .retention => e ≤ sm.thres.thresRetentionToOff
  | .freq1 => e ≤ sm.thres.thres1ToRetention
  | .freq2 => e ≤ sm.thres.thres2To1
  | .freq3 => e ≤ sm.thres.thres3To2
  | .freq4 => e ≤ sm.thres.thres4To3
  | .freq5 => e ≤ sm.thres.thres5To4

/-- The order of the thresholds of neighbouring levels. -/
structure Params.Ordered (p : Params) : Prop where
  retentionOff : p.thresRetentionToOff < p.thres1ToRetention
  retention1 : p.thres1ToRetention < p.thresRetentionTo1
  off1 : p.thres1ToRetention < p.thresOffTo1
  freq12 : p.thres2To1 < p.thres1To2
  freq23 : p.thres3To2 < p.thres2To3
  freq34 : p.thres4To3 < p.thres3To4
  freq45 : p.thres5To4 < p.thres4To5

/-- **What an update does**: it stays, goes up or goes down. -/
theorem update_spec (sm : DfsLry) (e : Rat) : (sm.update e).1.thres = sm.thres ∧
    ((sm.update e = (sm, []) ∧ ¬ sm.rises e ∧ ¬ sm.falls e) ∨ ((sm.update e).1.state = sm.state.above ∧ sm.rises e ∧
        (sm.falls e → sm.state.looksUp = true)) ∨ ((sm.update e).1.state = sm.state.below ∧ sm.falls e ∧
        (sm.rises e → sm.state.looksUp = false))) := by
  unfold rises falls update
  -- one row of the table for each state; what is left is which of its thresholds the energy passes
  cases hst : sm.state with
  | init => exact ⟨rfl, Or.inr (Or.inl ⟨rfl, trivial, fun _ => rfl⟩)⟩
  | _ =>
    simp only [reduceCtorEq, false_and, true_and, if_false, State.looksUp]
    split_ifs <;> simp_all [moves, State.above, State.below]

theorem update_thres (sm : DfsLry) (e : Rat) : (sm.update e).1.thres = sm.thres :=
  (update_spec sm e).1

theorem Params.Ordered.above (h : sm.thres.Ordered) {sm' : DfsLry} {e : Rat} (hth : sm'.thres = sm.thres)
    (hst' : sm'.state = sm.state.above) (hrises : sm.rises e) : sm.state.toNat < sm'.state.toNat ∧ ¬ sm'.falls e := by
  unfold rises at hrises
  unfold falls
  rw [hth, hst']
  cases hst : sm.state <;> simp only [hst] at hrises
  · exact ⟨by decide, id⟩
  · exact ⟨by decide, not_le.mpr (h.off1.trans hrises)⟩
  · exact ⟨by decide, not_le.mpr (h.retention1.trans hrises)⟩
  · exact ⟨by decide, not_le.mpr (h.freq12.trans hrises)⟩
  · exact ⟨by decide, not_le.mpr (h.freq23.trans hrises)⟩
  · exact ⟨by decide, not_le.mpr (h.freq34.trans hrises)⟩
  · exact ⟨by decide, not_le.mpr (h.freq45.trans hrises)⟩

theorem Params.Ordered.below (h : sm.thres.Ordered) {sm' : DfsLry} {e : Rat} (hth : sm'.thres = sm.thres)
    (hst' : sm'.state = sm.state.below) (hfalls : sm.falls e) : sm'.state.toNat < sm.state.toNat ∧ ¬ sm'.rises e := by
  unfold falls at hfalls
  unfold rises
  rw [hth, hst']
  cases hst : sm.state <;> simp only [hst] at hfalls
  · exact ⟨by decide, not_lt.mpr (hfalls.trans (h.retentionOff.trans h.off1).le)⟩
  · exact ⟨by decide, not_lt.mpr (hfalls.trans h.retention1.le)⟩
  · exact ⟨by decide, not_lt.mpr (hfalls.trans h.freq12.le)⟩
  · exact ⟨by decide, not_lt.mpr (hfalls.trans h.freq23.le)⟩
  · exact ⟨by decide, not_lt.mpr (hfalls.trans h.freq34.le)⟩
  · exact ⟨by decide, not_lt.mpr (hfalls.trans h.freq45.le)⟩

/-- **With ordered thresholds**, an update does nothing; or it goes up, and then the energy is not low for the new
    state; or it goes down, and then the energy is not high for the new state. -/
theorem update_cases (h : sm.thres.Ordered) (e : Rat) : sm.update e = (sm, []) ∨
      (sm.state.toNat < (sm.update e).1.state.toNat ∧ ¬ (sm.update e).1.falls e) ∨
      ((sm.update e).1.state.toNat < sm.state.toNat ∧ ¬ (sm.update e).1.rises e) := by
  obtain ⟨hth, ⟨hquiet, -⟩ | ⟨hup, hrises, -⟩ | ⟨hdown, hfalls, -⟩⟩ := update_spec sm e
  · exact Or.inl hquiet
  · exact Or.inr (Or.inl (h.above hth hup hrises))
  · exact Or.inr (Or.inr (h.below hth hdown hfalls))

theorem le_update (e : Rat) (h : ¬ sm.falls e) : sm.state.toNat ≤ (sm.update e).1.state.toNat := by
  obtain ⟨-, ⟨hquiet, -⟩ | ⟨hup, -⟩ | ⟨-, hfalls, -⟩⟩ := update_spec sm e
  · rw [hquiet]
  · rw [hup]
    exact sm.state.toNat_le_above
  · exact absurd hfalls h

theorem update_le (e : Rat) (h : ¬ sm.rises e) : (sm.update e).1.state.toNat ≤ sm.state.toNat := by
  obtain ⟨-, ⟨hquiet, -⟩ | ⟨-, hrises, -⟩ | ⟨hdown, -⟩⟩ := update_spec sm e
  · rw [hquiet]
  · exact absurd hrises h
  · rw [hdown]
    exact sm.state.below_toNat_le

/-! ## A constant energy -/

theorem ladder_update (e : Rat) : Ladder (fun sm : DfsLry => (sm.update e).1) (fun sm => sm.state.toNat)
      (fun sm => sm.thres.Ordered) where
  keeps sm h := by rw [update_thres]; exact h
  same sm h heq := by
    rcases update_cases h e with hquiet | ⟨hlt, -⟩ | ⟨hlt, -⟩
    · rw [hquiet]
    · omega
    · omega
  up sm h hlt := by
    rcases update_cases h e with hquiet | ⟨-, hfalls⟩ | ⟨hlt', -⟩
    · rw [hquiet] at hlt
      exact absurd hlt (Nat.lt_irrefl _)
    · exact le_update e hfalls
    · omega
  down sm h hlt := by
    rcases update_cases h e with hquiet | ⟨hlt', -⟩ | ⟨-, hrises⟩
    · rw [hquiet] at hlt
      exact absurd hlt (Nat.lt_irrefl _)
    · omega
    · exact update_le e hrises

theorem update_of_fixed (h : sm.thres.Ordered) {e : Rat} (hfix : (sm.update e).1 = sm) : sm.update e = (sm, []) := by
  rcases update_cases h e with hquiet | ⟨hlt, -⟩ | ⟨hlt, -⟩
  · exact hquiet
  · rw [hfix] at hlt
    omega
  · rw [hfix] at hlt
    omega

/-- The machine after `i` updates with the same energy. -/
def repeated (sm : DfsLry) (e : Rat) (i : Nat) : DfsLry := (fun sm => (sm.update e).1)^[i] sm

theorem update_repeated (h : sm.thres.Ordered) (e : Rat) {n : Nat} (hn : ∀ st : State, st.toNat ≤ n)
    {i : Nat} (hi : n ≤ i) : (sm.repeated e i).update e = (sm.repeated e n, []) := by
  have hladder := ladder_update e
  have hfix := hladder.settles h fun sm _ => hn sm.state
  have hsame : sm.repeated e i = sm.repeated e n := by
    obtain ⟨k, rfl⟩ := Nat.exists_eq_add_of_le' hi
    rw [repeated, Function.iterate_add_apply, Function.iterate_fixed hfix]
    rfl
  rw [hsame]
  exact update_of_fixed (hladder.keeps_iterate h n) hfix

/-- **`DFS_LRY` settles.**  Under a constant energy the states go one way, and after the first seven calls no
    call changes anything or sends a message. -/
theorem dfs_settles (h : sm.thres.Ordered) (e : Rat) : (Monotone (fun i => (sm.repeated e i).state.toNat) ∨
        Antitone (fun i => (sm.repeated e i).state.toNat)) ∧
      ∀ i, 7 ≤ i → (sm.repeated e i).update e = (sm.repeated e 7, []) := by
  refine ⟨(ladder_update e).oneWay h, ?_⟩
  intro i hi
  have hlevels : ∀ st : State, st.toNat ≤ 7 := by
    intro st
    cases st <;> decide
  exact update_repeated h e hlevels hi

/-- The thresholds of the witness. -/
def demoThres : Params where
  thres5To4 := 50
  thres4To3 := 40
  thres3To2 := 30
  thres2To1 := 20
  thres1ToRetention := 10
  thresRetentionToOff := 5
  thresOffTo1 := 15
  thresRetentionTo1 := 15
  thres1To2 := 25
  thres2To3 := 35
  thres3To4 := 45
  thres4To5 := 55

theorem demoThres_ordered : demoThres.Ordered := by
  constructor <;> decide +kernel

/-- From a machine that was never initialised, at the energy 100: after seven calls it is at the highest frequency. -/
theorem dfs_settles_high : (new demoThres).thres.Ordered ∧ ((new demoThres).repeated 100 7).state = .freq5 ∧
      ((new demoThres).repeated 100 9).update 100 = ((new demoThres).repeated 100 7, []) :=
  have h : (new demoThres).thres.Ordered := demoThres_ordered
  ⟨h, by decide +kernel, (dfs_settles h 100).2 9 (by decide)⟩

end DfsLry

end NvpSim.Energy
