/-
  The energy manager (`engy/energy_mgmt.{hh,cc}`, `engy/energy_harvester.cc`).

  `energy_remained` is moved in exactly one function, `consumeEnergy(sender, val)`: a positive `val` is a
  consumption, a negative one a harvest.  Both CLAMP the result, below at the state machine's
  `energy_consume_lower_bound`, above at the energy the capacitor holds at 5 V.  Then the state machine sees the
  new value and may broadcast messages, which are queued in `msg_togo` and delivered by `event_msg`.

  Energies are exact rationals.  A failed `assert` of the event queue is `none`.
-/
import NvpSim.Energy.StateMachine
import NvpSim.Sim.Event

namespace NvpSim.Energy

open NvpSim.Sim Option

/-- The harvesters of `energy_harvester.hh`. -/
inductive Harvester where
  | base
  | simple
  deriving DecidableEq, Repr

/-- `energy_harvest(energy_harvested, energy_remained)`: the base class returns 0, the
    `SimpleHarvester` adds what was harvested. -/
def Harvester.energyHarvest : Harvester → Rat → Rat → Rat
  | base, _, _ => 0
  | simple, energyHarvested, energyRemained => energyRemained + energyHarvested

/-- `EnergyMgmtParams`; `profile` is the content of the file at `path_energy_profile`, in the
    order of the file. -/
structure EnergyMgmtParams where
  systemLeakage : Rat
  energyProfileMult : Rat
  timeUnit : Tick
  harvestModule : Harvester
  capacity : Rat
  profile : List Rat

/-- The defaults of `EnergyMgmt.py` for a given profile file and time unit. -/
def EnergyMgmtParams.default (timeUnit : Tick) (profile : List Rat) : EnergyMgmtParams where
  systemLeakage := 1 / 100
  energyProfileMult := 1
  timeUnit := timeUnit
  harvestModule := .simple
  capacity := 1
  profile := profile

/-- `upper_bound` of `consumeEnergy`: `0.5 * capacity * pow(5, 2) * pow(10, 3)` nJ. -/
def EnergyMgmtParams.upperBound (p : EnergyMgmtParams) : Rat :=
  1 / 2 * p.capacity * 5 ^ 2 * 10 ^ 3

/-- The state of an `EnergyMgmt` with a state machine of type `M`. -/
structure EnergyMgmt (M : Type) where
  energyRemained : Rat
  msgTogo : List EnergyMsg
  eventMsg : Event
  energyHarvestData : List Rat
  eventEnergyHarvest : Event
  stateMachine : M

namespace EnergyMgmt

variable {M : Type}

/-- The constructor followed by the first half of `init()`: no energy, no message, the profile
    read and reversed (`readEnergyProfile`) so that its first sample pops first. -/
def new (p : EnergyMgmtParams) (sm : M) : EnergyMgmt M where
  energyRemained := 0
  msgTogo := []
  eventMsg := .fresh
  energyHarvestData := p.profile.reverse
  eventEnergyHarvest := .fresh
  stateMachine := sm

/-- `broadcastMsgAsEvent(msg)`: queue the message; the first one in the queue schedules the
    delivery event in the current tick. -/
def broadcastMsgAsEvent (curTick : Tick) (m : EnergyMgmt M) (msg : EnergyMsg) : Option (EnergyMgmt M) :=
  let m' := { m with msgTogo := m.msgTogo ++ [msg] }
  if m'.msgTogo.length = 1 then
    (m'.eventMsg.schedule curTick curTick).map (fun e => { m' with eventMsg := e })
  else some m'

/-- `broadcastMsg()`, the handler of `event_msg`: hand the first queued message to the energy
    port, drop it, and run again in this tick while messages are left.  `msg_togo[0]` of an empty
    queue is undefined. -/
def broadcastMsg (curTick : Tick) (m : EnergyMgmt M) : Option (EnergyMsg × EnergyMgmt M) :=
  match m.msgTogo with
  | [] => none
  | msg :: rest =>
    let m' := { m with msgTogo := rest }
    if rest ≠ [] then
      (m'.eventMsg.schedule curTick curTick).map (fun e => (msg, { m' with eventMsg := e }))
    else some (msg, m')

/-- The messages of one `update`, broadcast in order. -/
def broadcastMsgs (curTick : Tick) (m : EnergyMgmt M) (msgs : List EnergyMsg) : Option (EnergyMgmt M) :=
  msgs.foldlM (broadcastMsgAsEvent curTick) m

section

variable [BaseEnergySM M]

/-- The consumption branch of `consumeEnergy`: subtract, then clamp at the lower bound. -/
def energyAfterConsume (m : EnergyMgmt M) (val : Rat) : Rat :=
  let remained := m.energyRemained - val
  let lowerBound := BaseEnergySM.energyConsumeLowerBound m.stateMachine
  if remained < lowerBound then lowerBound else remained

/-- The harvest branch of `consumeEnergy` for the amount `-val > 0` still unscaled: leak, scale,
    harvest, then clamp at the upper bound or else at the lower one. -/
def energyAfterHarvest (p : EnergyMgmtParams) (m : EnergyMgmt M) (harvested : Rat) : Rat :=
  let leaked :=
    if BaseEnergySM.poweronDirtyPatch m.stateMachine then m.energyRemained - p.systemLeakage
    else m.energyRemained
  let remained := p.harvestModule.energyHarvest (harvested * p.energyProfileMult) leaked
  let lowerBound := BaseEnergySM.energyConsumeLowerBound m.stateMachine
  if p.upperBound < remained then p.upperBound
  else if remained < lowerBound then lowerBound
  else remained

/-- The value `consumeEnergy(sender, val)` leaves in `energy_remained`. -/
def energyAfter (p : EnergyMgmtParams) (m : EnergyMgmt M) (val : Rat) : Rat :=
  if 0 < val then m.energyAfterConsume val
  else if val < 0 then m.energyAfterHarvest p (-val)
  else m.energyRemained

def consumeEnergy (p : EnergyMgmtParams) (curTick : Tick) (m : EnergyMgmt M) (val : Rat) : Option (EnergyMgmt M) :=
  let remained := m.energyAfter p val
  let (sm, msgs) := BaseEnergySM.update m.stateMachine remained
  broadcastMsgs curTick { m with energyRemained := remained, stateMachine := sm } msgs

/-- `energyHarvest()`: nothing once the profile is used up, else harvest its next sample and
    schedule the next harvest. -/
def energyHarvest (p : EnergyMgmtParams) (curTick : Tick) (m : EnergyMgmt M) : Option (EnergyMgmt M) :=
  match m.energyHarvestData.getLast? with
  | none => some m
  | some energyVal => do
    let m' ← m.consumeEnergy p curTick (-energyVal)
    let e ← m'.eventEnergyHarvest.schedule curTick (curTick + p.timeUnit)
    some { m' with energyHarvestData := m'.energyHarvestData.dropLast, eventEnergyHarvest := e }

end

/-! ## What the message queue leaves alone -/

variable {cur : Tick} {m m' : EnergyMgmt M}

theorem broadcastMsgAsEvent_eq_some {msg : EnergyMsg} (h : m.broadcastMsgAsEvent cur msg = some m') :
    ∃ e, (e = m.eventMsg ∨ e = ⟨cur, true⟩) ∧ m' = { m with msgTogo := m.msgTogo ++ [msg], eventMsg := e } := by
  unfold broadcastMsgAsEvent at h
  dsimp only at h
  split at h
  · obtain ⟨e, he, rfl⟩ := map_eq_some_iff.mp h
    exact ⟨e, Or.inr (Event.schedule_eq_some.mp he).2.2, rfl⟩
  · cases h
    exact ⟨_, Or.inl rfl, rfl⟩

/-- **Messages touch the queue and its event only.** -/
theorem broadcastMsgs_eq_some {msgs : List EnergyMsg} (h : m.broadcastMsgs cur msgs = some m') :
    ∃ e, (e = m.eventMsg ∨ e = ⟨cur, true⟩) ∧ m' = { m with msgTogo := m.msgTogo ++ msgs, eventMsg := e } := by
  induction msgs generalizing m with
  | nil =>
    cases h
    exact ⟨_, Or.inl rfl, by rw [List.append_nil]⟩
  | cons msg msgs ih =>
    obtain ⟨m₁, h₁, h₂⟩ := bind_eq_some_iff.mp h
    obtain ⟨e₁, he₁, rfl⟩ := broadcastMsgAsEvent_eq_some h₁
    obtain ⟨e, he, rfl⟩ := ih h₂
    exact ⟨e, he.elim (fun heq => heq ▸ he₁) Or.inr, by rw [List.append_assoc]; rfl⟩

theorem broadcastMsg_frame {msg : EnergyMsg} (h : m.broadcastMsg cur = some (msg, m')) :
    m'.energyRemained = m.energyRemained ∧ m'.stateMachine = m.stateMachine ∧
      m'.energyHarvestData = m.energyHarvestData := by
  unfold broadcastMsg at h
  split at h
  · cases h
  · split at h
    · obtain ⟨e, -, he⟩ := map_eq_some_iff.mp h
      cases he
      exact ⟨rfl, rfl, rfl⟩
    · cases h
      exact ⟨rfl, rfl, rfl⟩

variable [BaseEnergySM M]

/-- **`consumeEnergy` in one line**: the energy is `energyAfter`, the machine has seen it, and
    the profile is untouched. -/
theorem consumeEnergy_spec {p : EnergyMgmtParams} {val : Rat} (h : m.consumeEnergy p cur val = some m') :
    m'.energyRemained = m.energyAfter p val ∧
      m'.stateMachine = (BaseEnergySM.update m.stateMachine (m.energyAfter p val)).1 ∧
      m'.energyHarvestData = m.energyHarvestData := by
  obtain ⟨e, -, rfl⟩ := broadcastMsgs_eq_some h
  exact ⟨rfl, rfl, rfl⟩

theorem energyHarvest_cases {p : EnergyMgmtParams} (h : m.energyHarvest p cur = some m') :
    (m.energyHarvestData = [] ∧ m' = m) ∨ ∃ e m₁ ev, m.energyHarvestData.getLast? = some e ∧
      m.consumeEnergy p cur (-e) = some m₁ ∧ m' = { m₁ with
        energyHarvestData := m₁.energyHarvestData.dropLast, eventEnergyHarvest := ev } := by
  unfold energyHarvest at h
  split at h
  · rename_i hnone
    exact Or.inl ⟨List.getLast?_eq_none_iff.mp hnone, (Option.some.inj h).symm⟩
  · rename_i e hlast
    obtain ⟨m₁, h₁, h₂⟩ := bind_eq_some_iff.mp h
    obtain ⟨ev, -, h₃⟩ := bind_eq_some_iff.mp h₂
    exact Or.inr ⟨e, m₁, ev, hlast, h₁, (Option.some.inj h₃).symm⟩

/-- **`energyHarvest` in one line**: an empty profile changes nothing, otherwise the last sample
    of the reversed profile is consumed with a minus sign and dropped. -/
theorem energyHarvest_spec {p : EnergyMgmtParams} (h : m.energyHarvest p cur = some m') :
    (m.energyHarvestData = [] ∧ m' = m) ∨ ∃ e rest, m.energyHarvestData = rest ++ [e] ∧ m'.energyHarvestData = rest ∧
      m'.energyRemained = m.energyAfter p (-e) ∧
      m'.stateMachine = (BaseEnergySM.update m.stateMachine (m.energyAfter p (-e))).1 := by
  rcases energyHarvest_cases h with hnil | ⟨e, m₁, ev, hlast, h₁, rfl⟩
  · exact Or.inl hnil
  · obtain ⟨rest, hrest⟩ := List.getLast?_eq_some_iff.mp hlast
    obtain ⟨he, hs, hd⟩ := consumeEnergy_spec h₁
    refine Or.inr ⟨e, rest, hrest, ?_, he, hs⟩
    show m₁.energyHarvestData.dropLast = rest
    rw [hd, hrest, List.dropLast_concat]

end EnergyMgmt
end NvpSim.Energy
