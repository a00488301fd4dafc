/-
  The energy manager and its state machine, from start-up on: do they agree?

  `start` is `EnergyMgmt::init()`, which harvests for the first time, and then `init()` of the state machine.
  Whether a harvest leaks depends on `DFS_LRY_poweron_dirty_patch`, a variable of another file: `Patched` is a
  state machine together with its value, which each call brings.

  The manager clamps a harvest into [`thres_1_to_off`, upper bound], but a consumption only from below.
-/
import NvpSim.Energy.Broadcast
import NvpSim.Energy.Conservation
import NvpSim.Energy.Hysteresis

namespace NvpSim.Energy

open NvpSim.Sim NvpSim.Lib List Option

variable {M : Type}

namespace EnergyMgmt

/-! ## Calls that come through -/

/-- The event that delivers messages is scheduled exactly while messages are queued. -/
def Calm (m : EnergyMgmt M) : Prop := m.eventMsg.scheduled = true ↔ m.msgTogo ≠ []

variable {m : EnergyMgmt M}

theorem Calm.free (h : m.Calm) (hq : m.msgTogo = []) : m.eventMsg.scheduled = false :=
  Bool.eq_false_iff.mpr fun hsched => h.mp hsched hq

/-- A message is queued, and its event scheduled if it is the first. -/
theorem Calm.broadcastMsgAsEvent (h : m.Calm) (t : Tick) (msg : EnergyMsg) :
    ∃ m', m.broadcastMsgAsEvent t msg = some m' ∧ m'.Calm := by
  by_cases hq : m.msgTogo = []
  · exact ⟨_, broadcastMsgAsEvent_of_nil msg hq (h.free hq), fun _ => cons_ne_nil _ _, fun _ => rfl⟩
  · refine ⟨_, broadcastMsgAsEvent_of_ne_nil msg hq, ?_, fun _ => h.mpr hq⟩
    intro _ hnil
    exact hq (append_eq_nil_iff.mp hnil).1

theorem Calm.broadcastMsgs (h : m.Calm) (t : Tick) (msgs : List EnergyMsg) :
    ∃ m', m.broadcastMsgs t msgs = some m' ∧ m'.Calm := by
  induction msgs generalizing m with
  | nil => exact ⟨m, rfl, h⟩
  | cons msg msgs ih =>
    obtain ⟨m₁, h₁, hcalm⟩ := h.broadcastMsgAsEvent t msg
    obtain ⟨m', h', hcalm'⟩ := ih hcalm
    exact ⟨m', bind_eq_some_iff.mpr ⟨m₁, h₁, h'⟩, hcalm'⟩

theorem calm_new (p : EnergyMgmtParams) (sm : M) : (new p sm).Calm :=
  ⟨nofun, fun h => absurd rfl h⟩

/-- Messages that are sent at one tick are delivered at it. -/
theorem broadcastMsgs_when {t : Tick} {msgs : List EnergyMsg} {m' : EnergyMgmt M}
    (h : m.broadcastMsgs t msgs = some m') (hwhen : m.eventMsg.scheduled = true → m.eventMsg.when = t) :
    m'.eventMsg.scheduled = true → m'.eventMsg.when = t := by
  obtain ⟨e, rfl | rfl, rfl⟩ := broadcastMsgs_eq_some h
  · exact hwhen
  · exact fun _ => rfl

theorem broadcastMsgs_of_ne_nil (t : Tick) (msgs : List EnergyMsg) (hq : m.msgTogo ≠ []) :
    ∃ m', m.broadcastMsgs t msgs = some m' ∧ m'.eventMsg = m.eventMsg := by
  induction msgs generalizing m with
  | nil => exact ⟨m, rfl, rfl⟩
  | cons msg msgs ih =>
    have hpush : m.broadcastMsgAsEvent t msg = some _ := broadcastMsgAsEvent_of_ne_nil msg hq
    obtain ⟨m', hm', hevent⟩ := ih (m := { m with msgTogo := m.msgTogo ++ [msg] })
      fun hnil => hq (append_eq_nil_iff.mp hnil).1
    exact ⟨m', bind_eq_some_iff.mpr ⟨_, hpush, hm'⟩, hevent⟩

section

variable [BaseEnergySM M] {p : EnergyMgmtParams} {m m' : EnergyMgmt M} {t : Tick}

/-- No assertion of a consumption fails. -/
theorem Calm.consumeEnergy (h : m.Calm) (p : EnergyMgmtParams) (t : Tick) (val : Rat) :
    ∃ m', m.consumeEnergy p t val = some m' ∧ m'.Calm :=
  Calm.broadcastMsgs (m := { m with
    energyRemained := m.energyAfter p val
    stateMachine := (BaseEnergySM.update m.stateMachine (m.energyAfter p val)).1 }) h t _

variable {val : Rat}

theorem Calm.of_consumeEnergy (h : m.Calm) (hs : m.consumeEnergy p t val = some m') : m'.Calm := by
  obtain ⟨m₁, h₁, hcalm⟩ := h.consumeEnergy p t val
  cases hs.symm.trans h₁
  exact hcalm

theorem consumeEnergy_of_ne_nil (p : EnergyMgmtParams) (t : Tick) (val : Rat) (hq : m.msgTogo ≠ []) :
    ∃ m', m.consumeEnergy p t val = some m' ∧ m'.eventMsg = m.eventMsg := by
  obtain ⟨m', hm', hevent⟩ := broadcastMsgs_of_ne_nil (m := { m with
    energyRemained := m.energyAfter p val
    stateMachine := (BaseEnergySM.update m.stateMachine (m.energyAfter p val)).1 }) t
    (BaseEnergySM.update m.stateMachine (m.energyAfter p val)).2 hq
  exact ⟨m', hm', hevent⟩

theorem consumeEnergy_eventEnergyHarvest (h : m.consumeEnergy p t val = some m') :
    m'.eventEnergyHarvest = m.eventEnergyHarvest := by
  obtain ⟨e, -, rfl⟩ := broadcastMsgs_eq_some h
  rfl

/-- No assertion of a harvest fails. -/
theorem Calm.energyHarvest (h : m.Calm) (p : EnergyMgmtParams) (t : Tick)
    (hfree : m.eventEnergyHarvest.scheduled = false) : ∃ m', m.energyHarvest p t = some m' ∧ m'.Calm := by
  unfold EnergyMgmt.energyHarvest
  split
  · exact ⟨m, rfl, h⟩
  · rename_i e hlast
    obtain ⟨m₁, h₁, hcalm⟩ := h.consumeEnergy p t (-e)
    have hfree₁ : m₁.eventEnergyHarvest.scheduled = false := by
      rw [consumeEnergy_eventEnergyHarvest h₁]
      exact hfree
    have hsched := Event.schedule_eq_some.mpr ⟨Nat.le_add_right t p.timeUnit, hfree₁, rfl⟩
    exact ⟨_, bind_eq_some_iff.mpr ⟨m₁, h₁, bind_eq_some_iff.mpr ⟨_, hsched, rfl⟩⟩, hcalm⟩

/-! ## Start-up -/

/-- `init()` of the manager and then of its state machine. -/
def start (p : EnergyMgmtParams) (curTick : Tick) (sm : M) (init : M → M × List EnergyMsg) : Option (EnergyMgmt M) :=
  ((new p sm).energyHarvest p curTick).bind fun m =>
    broadcastMsgs curTick { m with stateMachine := (init m.stateMachine).1 } (init m.stateMachine).2

/-- **`init()`**: the first sample, and then the messages of the state machine's own `init`. -/
theorem start_spec (p : EnergyMgmtParams) (t : Tick) (sm : M) (init : M → M × List EnergyMsg) :
    ∃ m₁ m, (new p sm).energyHarvest p t = some m₁ ∧ start p t sm init = some m ∧ m.Calm ∧
      m.energyRemained = m₁.energyRemained ∧ m.stateMachine = (init m₁.stateMachine).1 ∧
      m.msgTogo = m₁.msgTogo ++ (init m₁.stateMachine).2 := by
  obtain ⟨m₁, h₁, hcalm₁⟩ := (calm_new p sm).energyHarvest p t rfl
  obtain ⟨m, hm, hcalm⟩ := Calm.broadcastMsgs
    (m := { m₁ with stateMachine := (init m₁.stateMachine).1 }) hcalm₁ t (init m₁.stateMachine).2
  obtain ⟨e, -, rfl⟩ := broadcastMsgs_eq_some hm
  refine ⟨m₁, _, h₁, ?_, hcalm, rfl, rfl, rfl⟩
  unfold start
  rw [h₁]
  exact hm

theorem start_due {sm : M} {init : M → M × List EnergyMsg} (h : start p t sm init = some m)
    (hcalm : m.Calm) (hq : m.msgTogo ≠ []) : m.eventMsg.due = some t := by
  obtain ⟨m₁, h₁, h₂⟩ := bind_eq_some_iff.mp h
  have hfirst : m₁.eventMsg.scheduled = true → m₁.eventMsg.when = t := by
    rcases energyHarvest_cases h₁ with ⟨-, rfl⟩ | ⟨e, m₂, ev, -, hs, rfl⟩
    · intro hsched
      cases hsched
    · have hwhen := broadcastMsgs_when hs nofun
      exact hwhen
  have hsched := hcalm.mpr hq
  exact Event.due_eq_some.mpr ⟨hsched, broadcastMsgs_when h₂ hfirst hsched⟩

/-! ## The two clamps together -/

section

variable (hlow : BaseEnergySM.energyConsumeLowerBound m.stateMachine ≤ p.upperBound)

include hlow

/-- The energy stays below the capacity bound. -/
theorem energyAfter_le_upperBound
    (h : m.energyRemained ≤ p.upperBound) : m.energyAfter p val ≤ p.upperBound := by
  unfold energyAfter energyAfterConsume energyAfterHarvest
  dsimp only
  generalize p.harvestModule.energyHarvest _ _ = harvested
  split_ifs with hpos hbelow hneg hover hunder
  · exact hlow
  · linarith
  · exact le_rfl
  · exact hlow
  · exact not_lt.mp hover
  · exact h

/-- After a consumption the energy is not below the bound of the state. -/
theorem lowerBound_le_energyAfter (hval : val ≠ 0) :
    BaseEnergySM.energyConsumeLowerBound m.stateMachine ≤ m.energyAfter p val := by
  have hmin := min_bounds_le_energyAfter (p := p) (m := m) hval
  rw [min_eq_left hlow] at hmin
  exact hmin

end

end

end EnergyMgmt

/-! ## Leakage on or off -/

/-- A state machine, and the value of `DFS_LRY_poweron_dirty_patch` in the simulation that it runs in. -/
structure Patched (M : Type) where
  machine : M
  patch : Bool

instance [BaseEnergySM M] : BaseEnergySM (Patched M) where
  energyConsumeLowerBound := fun s => BaseEnergySM.energyConsumeLowerBound s.machine
  update := fun s e =>
    ({ s with machine := (BaseEnergySM.update s.machine e).1 }, (BaseEnergySM.update s.machine e).2)
  poweronDirtyPatch := Patched.patch

/-- `init()` of the state machine. -/
def Patched.init (s : Patched SimpleEnergySM) : Patched SimpleEnergySM × List EnergyMsg :=
  ({ s with machine := s.machine.init.1 }, s.machine.init.2)

/-- A call of `consumeEnergy`, with leakage on or off. -/
structure EnergyCall where
  leaks : Bool
  tick : Tick
  val : Rat

namespace EnergyMgmt

/-- The manager after a call. -/
def call [BaseEnergySM M] (p : EnergyMgmtParams) (m : EnergyMgmt (Patched M)) (c : EnergyCall) :
    Option (EnergyMgmt (Patched M)) :=
  consumeEnergy p c.tick { m with stateMachine := { m.stateMachine with patch := c.leaks } } c.val

/-- Start-up of a manager with a `SimpleEnergySM`, and then the calls. -/
def afterCalls (p : EnergyMgmtParams) (t : Tick) (thres1ToOff thresOffTo1 : Rat) (leaks : Bool)
    (cs : List EnergyCall) : Option (EnergyMgmt (Patched SimpleEnergySM)) :=
  (start p t ⟨SimpleEnergySM.new thres1ToOff thresOffTo1, leaks⟩ Patched.init).bind fun m =>
    cs.foldlM (call p) m

theorem afterCalls_snoc (p : EnergyMgmtParams) (t : Tick) (a b : Rat) (leaks : Bool)
    (cs : List EnergyCall) (c : EnergyCall) :
    afterCalls p t a b leaks (cs ++ [c]) = (afterCalls p t a b leaks cs).bind fun m => call p m c := by
  unfold afterCalls
  rw [bind_assoc]
  congr 1
  funext m
  rw [foldlM_append]
  show (cs.foldlM (call p) m).bind (fun m => (call p m c).bind some) = _
  congr 1
  funext m'
  cases call p m' c <;> rfl

/-- What is true after the calls `cs`. -/
structure Agrees (p : EnergyMgmtParams) (a b : Rat) (cs : List EnergyCall)
    (m : EnergyMgmt (Patched SimpleEnergySM)) : Prop where
  calm : m.Calm
  lowThres : m.stateMachine.machine.thres1ToOff = a
  highThres : m.stateMachine.machine.thresOffTo1 = b
  upper : m.energyRemained ≤ p.upperBound
  lower : (∃ c ∈ cs, c.val ≠ 0) → a ≤ m.energyRemained
  on : cs ≠ [] → m.stateMachine.machine.state = .powerOn → a < m.energyRemained
  off : cs ≠ [] → m.stateMachine.machine.state = .powerOff → m.energyRemained < b

variable {p : EnergyMgmtParams} {a b : Rat} {t : Tick} {leaks : Bool}

/-- Manager and machine agree at the start. -/
theorem agrees_start (ha : a ≤ p.upperBound) (hcap : 0 ≤ p.capacity) :
    ∃ m, afterCalls p t a b leaks [] = some m ∧ Agrees p a b [] m := by
  obtain ⟨m₁, m, h₁, hm, hcalm, henergy, hsm, -⟩ :=
    start_spec p t ⟨SimpleEnergySM.new a b, leaks⟩ Patched.init
  have hzero : (0 : Rat) ≤ p.upperBound := by
    unfold EnergyMgmtParams.upperBound
    linarith
  have hfirst : m₁.energyRemained ≤ p.upperBound ∧ m₁.stateMachine.machine.thres1ToOff = a ∧
      m₁.stateMachine.machine.thresOffTo1 = b := by
    rcases energyHarvest_spec h₁ with ⟨-, rfl⟩ | ⟨e, rest, -, -, he, hs⟩
    · exact ⟨hzero, rfl, rfl⟩
    · rw [he, hs]
      exact ⟨energyAfter_le_upperBound ha hzero, SimpleEnergySM.update_thresholds _ _⟩
  refine ⟨m, ?_, hcalm, ?_, ?_, ?_, ?_, fun hne => absurd rfl hne, fun hne => absurd rfl hne⟩
  · unfold afterCalls
    rw [hm]
    rfl
  · rw [hsm]
    exact hfirst.2.1
  · rw [hsm]
    exact hfirst.2.2
  · rw [henergy]
    exact hfirst.1
  · rintro ⟨c, hc, -⟩
    cases hc

/-- **One call** keeps manager and machine in agreement. -/
theorem Agrees.call {cs : List EnergyCall} {m : EnergyMgmt (Patched SimpleEnergySM)}
    (h : Agrees p a b cs m) (hab : a < b) (ha : a ≤ p.upperBound) (c : EnergyCall) :
    ∃ m', m.call p c = some m' ∧ Agrees p a b (cs ++ [c]) m' := by
  obtain ⟨m', hm', hcalm⟩ := Calm.consumeEnergy
    (m := { m with stateMachine := { m.stateMachine with patch := c.leaks } }) h.calm p c.tick c.val
  refine ⟨m', hm', ?_⟩
  obtain ⟨henergy, hsm, -⟩ := consumeEnergy_spec hm'
  have hbound : BaseEnergySM.energyConsumeLowerBound
      ({ m.stateMachine with patch := c.leaks } : Patched SimpleEnergySM) = a := h.lowThres
  have hmachine : m'.stateMachine.machine = (m.stateMachine.machine.update m'.energyRemained).1 := by
    rw [hsm, henergy]
    rfl
  obtain ⟨hlow, hhigh⟩ := SimpleEnergySM.update_thresholds m.stateMachine.machine m'.energyRemained
  have hcases := SimpleEnergySM.update_cases m.stateMachine.machine m'.energyRemained
  rw [h.lowThres, h.highThres] at hcases
  refine ⟨hcalm, ?_, ?_, ?_, ?_, ?_, ?_⟩
  · rw [hmachine, hlow, h.lowThres]
  · rw [hmachine, hhigh, h.highThres]
  · rw [henergy]
    exact energyAfter_le_upperBound (hbound.trans_le ha) h.upper
  · rintro ⟨d, hd, hval⟩
    by_cases hzero : c.val = 0
    · -- nothing consumed, nothing harvested: the energy is what an earlier call has left
      have hold : d ∈ cs := by
        rcases mem_append.mp hd with hd | hd
        · exact hd
        · rw [mem_singleton.mp hd] at hval
          exact absurd hzero hval
      have hsame : m'.energyRemained = m.energyRemained := by
        rw [henergy, hzero]
        unfold energyAfter
        rw [if_neg (lt_irrefl _), if_neg (lt_irrefl _)]
      rw [hsame]
      exact h.lower ⟨d, hold, hval⟩
    · rw [henergy, ← hbound]
      exact lowerBound_le_energyAfter (hbound.trans_le ha) hzero
  · intro _ hon
    rw [hmachine] at hon
    rcases hcases with ⟨-, -, heq⟩ | ⟨-, hge, -⟩ | ⟨hkept, -, heq⟩
    · rw [heq] at hon
      cases hon
    · exact hab.trans_le hge
    · rw [heq] at hon
      exact hkept hon
  · intro _ hoff
    rw [hmachine] at hoff
    rcases hcases with ⟨-, hle, -⟩ | ⟨-, -, heq⟩ | ⟨-, hkept, heq⟩
    · exact hle.trans_lt hab
    · rw [heq] at hoff
      cases hoff
    · rw [heq] at hoff
      exact hkept hoff

/-- **Manager and machine agree**, in every sequence of calls of any sign, for a capacity that is not negative. -/
theorem manager_machine_agree (hab : a < b) (ha : a ≤ p.upperBound) (hcap : 0 ≤ p.capacity) (t : Tick)
    (leaks : Bool) (cs : List EnergyCall) : ∃ m, afterCalls p t a b leaks cs = some m ∧
      ((∃ c ∈ cs, c.val ≠ 0) → a ≤ m.energyRemained ∧ m.energyRemained ≤ p.upperBound) ∧
      (cs ≠ [] → (m.stateMachine.machine.state = .powerOn → a < m.energyRemained) ∧
        (m.stateMachine.machine.state = .powerOff → m.energyRemained < b)) := by
  have hagrees : ∃ m, afterCalls p t a b leaks cs = some m ∧ Agrees p a b cs m := by
    induction cs using List.reverseRecOn with
    | nil => exact agrees_start ha hcap
    | append_singleton cs c ih =>
      obtain ⟨m, hm, h⟩ := ih
      obtain ⟨m', hm', h'⟩ := h.call hab ha c
      refine ⟨m', ?_, h'⟩
      rw [afterCalls_snoc, hm]
      exact hm'
  obtain ⟨m, hm, h⟩ := hagrees
  exact ⟨m, hm, fun hex => ⟨h.lower hex, h.upper⟩, fun hne => ⟨h.on hne, h.off hne⟩⟩

/-- A manager with a capacity, and no profile. -/
def noProfile (capacity : Rat) : EnergyMgmtParams :=
  { EnergyMgmtParams.default 10 [] with capacity := capacity }

/-- The thresholds 2 and 5: a harvest of 7 and a consumption of 6 with leakage on. -/
def harvestConsume : List EnergyCall := [⟨false, 3, -7⟩, ⟨true, 4, 6⟩]

theorem manager_machine_agree_demo :
    (2 : Rat) < 5 ∧ (2 : Rat) ≤ (noProfile 1).upperBound ∧ (0 : Rat) ≤ (noProfile 1).capacity ∧
      ∃ m, afterCalls (noProfile 1) 0 2 5 false harvestConsume = some m ∧
        2 ≤ m.energyRemained ∧ m.energyRemained ≤ (noProfile 1).upperBound := by
  have hab : (2 : Rat) < 5 := by decide +kernel
  have ha : (2 : Rat) ≤ (noProfile 1).upperBound := by decide +kernel
  have hcap : (0 : Rat) ≤ (noProfile 1).capacity := by decide +kernel
  obtain ⟨m, hm, hbounds, -⟩ := manager_machine_agree hab ha hcap 0 false harvestConsume
  exact ⟨hab, ha, hcap, m, hm, hbounds ⟨⟨true, 4, 6⟩, by simp [harvestConsume], by decide +kernel⟩⟩

/-- A capacity of -1 gives the upper bound -12500, above which the energy is from the start; a consumption of 1
    leaves -1. -/
theorem energy_above_upperBound : (-20000 : Rat) < -15000 ∧ (-20000 : Rat) ≤ (noProfile (-1)).upperBound ∧
      (afterCalls (noProfile (-1)) 0 (-20000) (-15000) false [⟨false, 3, 1⟩]).map energyRemained =
        some (-1) ∧ ¬ (-1 : Rat) ≤ (noProfile (-1)).upperBound := by
  decide +kernel

end EnergyMgmt

end NvpSim.Energy
