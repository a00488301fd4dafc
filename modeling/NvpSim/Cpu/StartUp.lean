/-
  The first messages.  `EnergyMgmt::init()` harvests the first sample before `SimpleEnergySM::init()` has run.
  If that sample reaches `thres_off_to_1`, the state machine sends POWER_ON, and its `init()` then sets it back
  to off and sends POWER_OFF.  The CPU, whose tick event is scheduled from the start, schedules it a second
  time.

  `Well` says that the messages delivered and still to come begin with POWER_OFF and alternate, and that the tick
  event is scheduled unless the last message delivered was POWER_OFF.  Then no handler fails, and every step keeps
  it (`Well.step`): all is decided by the first sample.
-/
import NvpSim.Cpu.MessageNumbers
import NvpSim.Energy.Agreement

namespace NvpSim.Energy

open NvpSim.Sim NvpSim.Lib

/-! ## What has been sent -/

namespace SimpleEnergySM

/-- The messages begin with POWER_OFF and alternate. -/
def WellFormed (msgs : List EnergyMsg) : Prop :=
  (∀ m ∈ msgs.head?, m = State.powerOff.msg) ∧ Alternates State.powerOff.msg State.powerOn.msg msgs

/-- The messages that the machine has sent. -/
structure Sent (msgs : List EnergyMsg) (sm : SimpleEnergySM) : Prop where
  wellFormed : WellFormed msgs
  last : msgs.getLast? = some sm.state.msg

variable {sm : SimpleEnergySM} {msgs : List EnergyMsg}

theorem Sent.update (h : Sent msgs sm) (e : Rat) : Sent (msgs ++ (sm.update e).2) (sm.update e).1 := by
  obtain ⟨⟨hfirst, hmem, hchain⟩, hlast⟩ := h
  rcases update_msgs sm e with ⟨hquiet, hsame⟩ | ⟨m, hspeaks, hne, hstate⟩
  · rw [hquiet, List.append_nil]
    exact ⟨⟨hfirst, hmem, hchain⟩, by rw [hsame]; exact hlast⟩
  · rw [hspeaks]
    refine ⟨⟨?_, ?_, ?_⟩, ?_⟩
    · cases msgs with
      | nil => cases hlast
      | cons m₀ msgs => exact hfirst
    · intro m' hm'
      rcases List.mem_append.mp hm' with hm' | hm'
      · exact hmem m' hm'
      · rw [List.mem_singleton.mp hm']
        exact mem_update_msgs sm e m (by rw [hspeaks]; exact List.mem_singleton_self m)
    · refine List.isChain_append.mpr ⟨hchain, .singleton m, ?_⟩
      intro x hx y hy
      cases hy
      rw [hlast] at hx
      cases hx
      exact hne
    · rw [List.getLast?_append, hstate]
      rfl

theorem WellFormed.next {done rest : List EnergyMsg} {msg : EnergyMsg} (h : WellFormed (done ++ msg :: rest)) :
    (done.getLast? = some State.powerOff.msg ∧ msg = State.powerOn.msg) ∨
      (done.getLast? ≠ some State.powerOff.msg ∧ msg = State.powerOff.msg) := by
  obtain ⟨hfirst, hmem, hchain⟩ := h
  have hmsg := hmem msg (List.mem_append_right _ (List.mem_cons_self ..))
  cases hd : done.getLast? with
  | none =>
    rw [List.getLast?_eq_none_iff.mp hd] at hfirst
    exact Or.inr ⟨(by intro h; cases h), hfirst msg rfl⟩
  | some d =>
    have hne : d ≠ msg := (List.isChain_append.mp hchain).2.2 d hd msg rfl
    have hmem' := hmem d (List.mem_append_left _ (List.mem_of_getLast? hd))
    rcases hmem' with rfl | rfl
    · exact Or.inl ⟨rfl, hmsg.resolve_left hne.symm⟩
    · refine Or.inr ⟨?_, hmsg.resolve_right hne.symm⟩
      intro h
      cases h

theorem WellFormed.left {done rest : List EnergyMsg} (h : WellFormed (done ++ rest)) : WellFormed done := by
  obtain ⟨hfirst, hmem, hchain⟩ := h
  refine ⟨?_, fun m hm => hmem m (List.mem_append_left _ hm), (List.isChain_append.mp hchain).1⟩
  intro m hm
  cases done with
  | nil => cases hm
  | cons m₀ done => exact hfirst m hm

end SimpleEnergySM

end NvpSim.Energy

namespace NvpSim.Cpu

open NvpSim.Sim NvpSim.Lib NvpSim.Energy NvpSim.Vdev

/-! ## The system -/

/-- The parameters of the manager and of the CPU. -/
structure PowerParams where
  mgmt : EnergyMgmtParams
  cpu : AtomicCpuParams

/-- The manager, the CPU, and the messages that have been handed out. -/
structure PowerSys where
  curTick : Tick
  mgmt : EnergyMgmt SimpleEnergySM
  cpu : AtomicCpu
  delivered : List EnergyMsg

/-- What happens in the system; `before` and `after` are what the other receivers of a message ask of the manager while
    they handle it, those that are bound before and after the CPU. -/
inductive PowerAct where
  | energy (val : Rat)
  | harvest
  | deliver (before after : List Rat)
  | tick (latency : Tick)
  | vdev (call : CpuCall)
  | pass (tick : Tick)

namespace PowerSys

variable (p : PowerParams)

/-- What a handler of the CPU has asked of the energy manager. -/
def asked (s : PowerSys) (c : AtomicCpu) : List Rat := c.consumed.drop s.cpu.consumed.length

/-- The manager after the amounts `vals`. -/
def spend (s : PowerSys) (m : EnergyMgmt SimpleEnergySM) (vals : List Rat) : Option (EnergyMgmt SimpleEnergySM) :=
  vals.foldlM (EnergyMgmt.consumeEnergy p.mgmt s.curTick) m

/-- `event_msg` fires: the first message is handed to all receivers and then dropped. -/
def deliver (s : PowerSys) (before after : List Rat) : Option PowerSys :=
  s.mgmt.msgTogo.head?.bind fun msg =>
    (s.cpu.handleMsg p.cpu s.curTick msg).bind fun r =>
      (s.spend p { s.mgmt with eventMsg := s.mgmt.eventMsg.fired } (before ++ s.asked r.1 ++ after)).bind
        fun m => (m.finishBroadcast s.curTick).map fun m =>
          { s with mgmt := m, cpu := r.1, delivered := s.delivered ++ [msg] }

/-- The CPU with its tick event taken off the queue. -/
def tickFired (s : PowerSys) : AtomicCpu := { s.cpu with tickEvent := s.cpu.tickEvent.fired }

/-- The manager with its harvest event taken off the queue. -/
def harvestFired (s : PowerSys) : EnergyMgmt SimpleEnergySM :=
  { s.mgmt with eventEnergyHarvest := s.mgmt.eventEnergyHarvest.fired }

/-- One action. -/
def step (s : PowerSys) : PowerAct → Option PowerSys
  | .energy val => (s.mgmt.consumeEnergy p.mgmt s.curTick val).map fun m => { s with mgmt := m }
  | .harvest => (s.harvestFired.energyHarvest p.mgmt s.curTick).map fun m => { s with mgmt := m }
  | .deliver before after => s.deliver p before after
  | .tick latency => (s.tickFired.tick p.cpu s.curTick latency).bind fun c =>
      (s.spend p s.mgmt (s.asked c)).map fun m => { s with mgmt := m, cpu := c }
  | .vdev call => (s.cpu.vdevCall p.cpu s.curTick call).map fun c => { s with cpu := c }
  | .pass tick => some { s with curTick := tick }

/-- Events fire when they are due, time does not pass them, and devices call a CPU that is running. -/
def Legal (s : PowerSys) : PowerAct → Prop
  | .energy _ => True
  | .harvest => s.mgmt.eventEnergyHarvest.due = some s.curTick
  | .deliver _ _ => s.mgmt.eventMsg.due = some s.curTick
  | .tick _ => s.cpu.tickEvent.due = some s.curTick
  | .vdev _ => s.cpu.tickEvent.scheduled = true
  | .pass tick => s.curTick ≤ tick ∧ (∀ w ∈ s.mgmt.eventMsg.due, tick ≤ w) ∧
      (∀ w ∈ s.mgmt.eventEnergyHarvest.due, tick ≤ w) ∧ ∀ w ∈ s.cpu.tickEvent.due, tick ≤ w

/-- The system after the `init()` of the manager and then of its state machine. -/
def boot (thres1ToOff thresOffTo1 : Rat) (curTick : Tick) (cpu : AtomicCpu) : Option PowerSys :=
  (EnergyMgmt.start p.mgmt curTick (SimpleEnergySM.new thres1ToOff thresOffTo1)
    SimpleEnergySM.init).map fun m => ⟨curTick, m, cpu, []⟩

/-- The first sample of the profile, if there is one, does not reach `thres_off_to_1`. -/
def StartsLow (p : EnergyMgmtParams) (thres1ToOff thresOffTo1 : Rat) : Prop :=
  ∀ e ∈ p.profile.head?,
    (EnergyMgmt.new p (SimpleEnergySM.new thres1ToOff thresOffTo1)).energyAfter p (-e) < thresOffTo1

instance (p : EnergyMgmtParams) (a b : Rat) : Decidable (StartsLow p a b) :=
  inferInstanceAs (Decidable (∀ e ∈ p.profile.head?, _))

/-! ## What every step keeps -/

/-- All messages so far are in order, and the CPU is in the state that the last delivered one has put it in. -/
structure Well (s : PowerSys) : Prop where
  calm : s.mgmt.Calm
  sent : SimpleEnergySM.Sent (s.delivered ++ s.mgmt.msgTogo) s.mgmt.stateMachine
  running : s.delivered.getLast? ≠ some SimpleEnergySM.State.powerOff.msg →
    ∃ w, s.cpu.tickEvent.due = some w ∧ s.curTick ≤ w
  stopped : s.delivered.getLast? = some SimpleEnergySM.State.powerOff.msg → s.cpu.tickEvent.due = none

variable {p : PowerParams} {s : PowerSys}

theorem Well.setMgmt (h : s.Well) {m : EnergyMgmt SimpleEnergySM} (hcalm : m.Calm)
    (hsent : SimpleEnergySM.Sent (s.delivered ++ m.msgTogo) m.stateMachine) : Well { s with mgmt := m } :=
  ⟨hcalm, hsent, h.running, h.stopped⟩

variable {done : List EnergyMsg}

theorem sent_of_consumeEnergy {m m' : EnergyMgmt SimpleEnergySM} {mp : EnergyMgmtParams} {t : Tick}
    {val : Rat} (hs : m.consumeEnergy mp t val = some m')
    (h : SimpleEnergySM.Sent (done ++ m.msgTogo) m.stateMachine) :
    SimpleEnergySM.Sent (done ++ m'.msgTogo) m'.stateMachine := by
  rw [EnergyMgmt.consumeEnergy_msgTogo hs, (EnergyMgmt.consumeEnergy_spec hs).2.1, ← List.append_assoc]
  exact h.update _

theorem Well.energy (h : s.Well) (val : Rat) : ∃ s', s.step p (.energy val) = some s' ∧ s'.Well := by
  obtain ⟨m, hm, hcalm⟩ := h.calm.consumeEnergy p.mgmt s.curTick val
  exact ⟨_, Option.map_eq_some_iff.mpr ⟨m, hm, rfl⟩, h.setMgmt hcalm (sent_of_consumeEnergy hm h.sent)⟩

theorem Well.harvest (h : s.Well) : ∃ s', s.step p .harvest = some s' ∧ s'.Well := by
  obtain ⟨m, hm, hcalm⟩ := EnergyMgmt.Calm.energyHarvest (m := s.harvestFired) h.calm p.mgmt s.curTick rfl
  refine ⟨_, Option.map_eq_some_iff.mpr ⟨m, hm, rfl⟩, h.setMgmt hcalm ?_⟩
  rcases EnergyMgmt.energyHarvest_cases hm with ⟨-, rfl⟩ | ⟨e, m₁, ev, -, hs, rfl⟩
  · exact h.sent
  · have hsent : SimpleEnergySM.Sent (s.delivered ++ m₁.msgTogo) m₁.stateMachine :=
      sent_of_consumeEnergy hs h.sent
    exact hsent

theorem spend_of_ne_nil (vals : List Rat) : ∀ {m : EnergyMgmt SimpleEnergySM}, m.msgTogo ≠ [] →
      SimpleEnergySM.Sent (done ++ m.msgTogo) m.stateMachine →
      ∃ m' msgs, s.spend p m vals = some m' ∧ m'.msgTogo = m.msgTogo ++ msgs ∧
        m'.eventMsg = m.eventMsg ∧ SimpleEnergySM.Sent (done ++ m'.msgTogo) m'.stateMachine := by
  induction vals with
  | nil =>
    intro m _ hsent
    exact ⟨m, [], rfl, (List.append_nil _).symm, rfl, hsent⟩
  | cons val vals ih =>
    intro m hq hsent
    obtain ⟨m₁, h₁, hevent⟩ := EnergyMgmt.consumeEnergy_of_ne_nil p.mgmt s.curTick val hq
    have hqueue := EnergyMgmt.consumeEnergy_msgTogo h₁
    obtain ⟨m', msgs, hspend, hmsgs, hevent', hsent'⟩ := ih
      (by rw [hqueue]; exact fun hnil => hq (List.append_eq_nil_iff.mp hnil).1) (sent_of_consumeEnergy h₁ hsent)
    refine ⟨m', _, ?_, by rw [hmsgs, hqueue, List.append_assoc], hevent'.trans hevent, hsent'⟩
    show (m.consumeEnergy p.mgmt s.curTick val).bind _ = some m'
    rw [h₁]
    exact hspend

theorem spend_of_calm (vals : List Rat) : ∀ {m : EnergyMgmt SimpleEnergySM}, m.Calm →
      SimpleEnergySM.Sent (done ++ m.msgTogo) m.stateMachine → ∃ m', s.spend p m vals = some m' ∧ m'.Calm ∧
        SimpleEnergySM.Sent (done ++ m'.msgTogo) m'.stateMachine := by
  induction vals with
  | nil =>
    intro m hcalm hsent
    exact ⟨m, rfl, hcalm, hsent⟩
  | cons val vals ih =>
    intro m hcalm hsent
    obtain ⟨m₁, h₁, hcalm₁⟩ := hcalm.consumeEnergy p.mgmt s.curTick val
    obtain ⟨m', hspend, hcalm', hsent'⟩ := ih hcalm₁ (sent_of_consumeEnergy h₁ hsent)
    refine ⟨m', ?_, hcalm', hsent'⟩
    show (m.consumeEnergy p.mgmt s.curTick val).bind _ = some m'
    rw [h₁]
    exact hspend

section

variable (h : s.Well)

include h

theorem Well.handleMsg {msg : EnergyMsg} {rest : List EnergyMsg} (hq : s.mgmt.msgTogo = msg :: rest) :
    ∃ c, s.cpu.handleMsg p.cpu s.curTick msg = some (c, 1) ∧
      (msg = SimpleEnergySM.State.powerOn.msg → ∃ w, c.tickEvent.due = some w ∧ s.curTick ≤ w) ∧
      (msg = SimpleEnergySM.State.powerOff.msg → c.tickEvent.due = none) := by
  have hsent := h.sent.wellFormed
  rw [hq] at hsent
  rcases hsent.next with ⟨hlast, rfl⟩ | ⟨hlast, rfl⟩
  · obtain ⟨c, hc, hdue⟩ := AtomicCpu.handleMsg_powerOn (p := p.cpu) (t := s.curTick) (h.stopped hlast)
    exact ⟨c, hc, fun _ => ⟨_, hdue, Nat.le_add_right _ _⟩, fun hoff => absurd hoff (by decide)⟩
  · obtain ⟨w, hw, -⟩ := h.running hlast
    obtain ⟨c, hc, hdue⟩ := AtomicCpu.handleMsg_powerOff (p := p.cpu) (t := s.curTick) hw
    exact ⟨c, hc, fun hon => absurd hon (by decide), fun _ => hdue⟩

/-- **A delivery comes through.** -/
theorem Well.deliver (hdue : s.mgmt.eventMsg.due = some s.curTick) (before after : List Rat) :
    ∃ s', s.step p (.deliver before after) = some s' ∧ s'.Well := by
  have hne := h.calm.mp (Event.due_eq_some.mp hdue).1
  obtain ⟨msg, rest, hq⟩ := List.exists_cons_of_ne_nil hne
  obtain ⟨c, hc, hon, hoff⟩ := h.handleMsg (p := p) hq
  obtain ⟨m, msgs, hspend, hqueue, hevent, hsent⟩ := spend_of_ne_nil (p := p) (s := s)
    (m := { s.mgmt with eventMsg := s.mgmt.eventMsg.fired }) (before ++ s.asked c ++ after) hne h.sent
  have hqueue' : m.msgTogo = msg :: (rest ++ msgs) := by
    rw [hqueue]
    show s.mgmt.msgTogo ++ msgs = _
    rw [hq]
    rfl
  obtain ⟨m', hm', hcalm, hrest, hsm⟩ : ∃ m', m.finishBroadcast s.curTick = some m' ∧ m'.Calm ∧
      m'.msgTogo = rest ++ msgs ∧ m'.stateMachine = m.stateMachine := by
    have hfree : m.eventMsg.scheduled = false := by
      rw [hevent]
      rfl
    by_cases hnil : rest ++ msgs = []
    · rw [hnil] at hqueue'
      refine ⟨_, EnergyMgmt.finishBroadcast_of_last hqueue', ?_, hnil.symm, rfl⟩
      exact ⟨fun hsched => (by rw [hfree] at hsched; cases hsched), fun hne => absurd rfl hne⟩
    · exact ⟨_, EnergyMgmt.finishBroadcast_of_more hqueue' hnil hfree, ⟨fun _ => hnil, fun _ => rfl⟩, rfl, rfl⟩
  refine ⟨{ s with mgmt := m', cpu := c, delivered := s.delivered ++ [msg] }, ?_, hcalm, ?_, ?_, ?_⟩
  · show s.deliver p before after = _
    unfold PowerSys.deliver
    rw [hq, List.head?_cons, Option.bind_some, hc, Option.bind_some, hspend, Option.bind_some, hm']
    rfl
  · -- what was first in the queue is now last among the delivered
    show SimpleEnergySM.Sent (s.delivered ++ [msg] ++ m'.msgTogo) m'.stateMachine
    rw [hqueue'] at hsent
    rw [hrest, hsm, List.append_assoc]
    exact hsent
  · intro hlast
    refine hon ?_
    rw [List.getLast?_concat] at hlast
    have hmem := h.sent.wellFormed.2.1 msg (by rw [hq]; simp)
    exact hmem.resolve_left fun heq => hlast (by rw [heq])
  · intro hlast
    rw [List.getLast?_concat] at hlast
    exact hoff (Option.some.inj hlast)

theorem Well.of_due {w : Tick} (hdue : s.cpu.tickEvent.due = some w) :
    s.delivered.getLast? ≠ some SimpleEnergySM.State.powerOff.msg := by
  intro hlast
  rw [h.stopped hlast] at hdue
  cases hdue

theorem Well.tick (hdue : s.cpu.tickEvent.due = some s.curTick) (latency : Tick) :
    ∃ s', s.step p (.tick latency) = some s' ∧ s'.Well := by
  obtain ⟨c, w, hc, hw, hle⟩ := AtomicCpu.tick_due (p := p.cpu) (c := s.tickFired) (t := s.curTick)
    (Event.due_fired _) latency
  obtain ⟨m, hspend, hcalm, hsent⟩ := spend_of_calm (p := p) (s := s) (s.asked c) h.calm h.sent
  refine ⟨{ s with mgmt := m, cpu := c }, ?_, hcalm, hsent, fun _ => ⟨w, hw, hle⟩, ?_⟩
  · show (s.tickFired.tick p.cpu s.curTick latency).bind _ = _
    rw [hc, Option.bind_some, hspend]
    rfl
  · intro hlast
    exact absurd hlast (h.of_due hdue)

theorem Well.vdev (hsched : s.cpu.tickEvent.scheduled = true) (call : CpuCall) :
    ∃ s', s.step p (.vdev call) = some s' ∧ s'.Well := by
  have hrun := h.of_due (Event.due_eq_some.mpr ⟨hsched, rfl⟩)
  obtain ⟨w, hw, hle⟩ := h.running hrun
  obtain ⟨c, w', hc, hw', hle'⟩ : ∃ c w', s.cpu.vdevCall p.cpu s.curTick call = some c ∧
      c.tickEvent.due = some w' ∧ w ≤ w' := by
    cases call with
    | virtualDeviceInterrupt name delay => exact AtomicCpu.virtualDeviceInterrupt_due hw hle delay
    | virtualDeviceRecover name delay => exact AtomicCpu.virtualDeviceRecover_due hw hle delay
    | virtualDeviceStart name | virtualDeviceEnd name => exact ⟨s.cpu, w, rfl, hw, Nat.le_refl w⟩
  exact ⟨{ s with cpu := c }, Option.map_eq_some_iff.mpr ⟨c, hc, rfl⟩, h.calm, h.sent,
    fun _ => ⟨w', hw', hle.trans hle'⟩, fun hlast => absurd hlast hrun⟩

theorem Well.pass {tick : Tick} (hleg : s.Legal (.pass tick)) :
    ∃ s', s.step p (.pass tick) = some s' ∧ s'.Well := by
  refine ⟨{ s with curTick := tick }, rfl, { h with running := ?_ }⟩
  intro hlast
  obtain ⟨w, hw, -⟩ := h.running hlast
  exact ⟨w, hw, hleg.2.2.2 w hw⟩

/-- **Every action that can come comes through, and all stays well.** -/
theorem Well.step {a : PowerAct} (hleg : s.Legal a) : ∃ s', s.step p a = some s' ∧ s'.Well := by
  cases a with
  | energy val => exact h.energy val
  | harvest => exact h.harvest
  | deliver before after => exact h.deliver hleg before after
  | tick latency => exact h.tick hleg latency
  | vdev call => exact h.vdev hleg call
  | pass tick => exact h.pass hleg

theorem Well.of_run {acts : List PowerAct} {s' : PowerSys}
    (hrun : Run (Guarded (stepOf (PowerSys.step p)) Legal) s acts s') : s'.Well := by
  refine hrun.inv ?_ h
  rintro s₁ a s₂ h₁ ⟨hs, hleg⟩
  obtain ⟨s₃, hs₃, h₃⟩ := h₁.step hleg
  cases hs.symm.trans hs₃
  exact h₃

end

/-! ## Start-up -/

theorem boot_spec (p : PowerParams) (a b : Rat) (t : Tick) (cpu : AtomicCpu) :
    ∃ s, boot p a b t cpu = some s ∧ s.curTick = t ∧ s.cpu = cpu ∧ s.delivered = [] ∧ s.mgmt.Calm ∧
      s.mgmt.eventMsg.due = some t ∧ s.mgmt.stateMachine.state = .powerOff ∧
      s.mgmt.msgTogo = if StartsLow p.mgmt a b then [SimpleEnergySM.State.powerOff.msg]
        else [SimpleEnergySM.State.powerOn.msg, SimpleEnergySM.State.powerOff.msg] := by
  obtain ⟨m₁, m, h₁, hm, hcalm, -, hsm, hqueue⟩ :=
    EnergyMgmt.start_spec p.mgmt t (SimpleEnergySM.new a b) SimpleEnergySM.init
  have hne : m.msgTogo ≠ [] := by
    rw [hqueue]
    exact fun hnil => List.cons_ne_nil _ _ (List.append_eq_nil_iff.mp hnil).2
  refine ⟨⟨t, m, cpu, []⟩, Option.map_eq_some_iff.mpr ⟨m, hm, rfl⟩, rfl, rfl, rfl, hcalm,
    EnergyMgmt.start_due hm hcalm hne, by rw [hsm]; rfl, ?_⟩
  show m.msgTogo = _
  rw [hqueue]
  rcases EnergyMgmt.energyHarvest_cases h₁ with ⟨hdata, rfl⟩ | ⟨e, m₂, ev, hlast, hs, rfl⟩
  · -- no profile, no message
    have hlow : StartsLow p.mgmt a b := by
      intro e he
      rw [List.reverse_eq_nil_iff.mp hdata] at he
      cases he
    rw [if_pos hlow]
    rfl
  · have hhead : p.mgmt.profile.head? = some e := by
      rw [← List.getLast?_reverse]
      exact hlast
    have hfirst : m₂.msgTogo = (SimpleEnergySM.update (SimpleEnergySM.new a b)
        ((EnergyMgmt.new p.mgmt (SimpleEnergySM.new a b)).energyAfter p.mgmt (-e))).2 :=
      EnergyMgmt.consumeEnergy_msgTogo hs
    have hlow : StartsLow p.mgmt a b ↔
        (EnergyMgmt.new p.mgmt (SimpleEnergySM.new a b)).energyAfter p.mgmt (-e) < b := by
      unfold StartsLow
      rw [hhead]
      exact ⟨fun h => h e rfl, fun h e' he' => by cases he'; exact h⟩
    show m₂.msgTogo ++ [SimpleEnergySM.State.powerOff.msg] = _
    rcases SimpleEnergySM.update_cases (SimpleEnergySM.new a b)
      ((EnergyMgmt.new p.mgmt (SimpleEnergySM.new a b)).energyAfter p.mgmt (-e)) with
      ⟨hon, -, -⟩ | ⟨-, hge, heq⟩ | ⟨-, hlt, heq⟩
    · cases hon
    · rw [hfirst, heq, if_neg (fun h => absurd hge (not_le.mpr (hlow.mp h)))]
      rfl
    · rw [hfirst, heq, if_pos (hlow.mpr (hlt rfl))]
      rfl

theorem handleMsg_powerOn_scheduled {cp : AtomicCpuParams} {c : AtomicCpu} {t : Tick}
    (h : c.tickEvent.scheduled = true) : c.handleMsg cp t SimpleEnergySM.State.powerOn.msg = none := by
  unfold AtomicCpu.handleMsg
  dsimp only
  rw [if_neg (by decide), if_pos (by decide)]
  unfold Event.schedule
  rw [if_neg]
  · rfl
  · rintro ⟨-, hfree⟩
    rw [h] at hfree
    cases hfree

/-- **When the first messages are well formed.**  With the tick event scheduled at the start: in every run the delivered
    messages begin with POWER_OFF and alternate, and no action fails an assertion, exactly if the first sample does not
    reach `thres_off_to_1`. -/
theorem startup_wellFormed_iff (p : PowerParams) (thres1ToOff thresOffTo1 : Rat) {t w : Tick}
    {cpu : AtomicCpu} (hdue : cpu.tickEvent.due = some w) (hw : t ≤ w) :
    (∃ s₀, boot p thres1ToOff thresOffTo1 t cpu = some s₀ ∧
      ∀ acts s, Run (Guarded (stepOf (PowerSys.step p)) Legal) s₀ acts s →
        SimpleEnergySM.WellFormed s.delivered ∧ ∀ a, s.Legal a → ∃ s', s.step p a = some s') ↔
      StartsLow p.mgmt thres1ToOff thresOffTo1 := by
  obtain ⟨s₀, hboot, htick, hcpu, hnone, hcalm, hevent, hstate, hqueue⟩ :=
    boot_spec p thres1ToOff thresOffTo1 t cpu
  constructor
  · rintro ⟨s₁, hboot₁, hall⟩
    cases hboot₁.symm.trans hboot
    by_contra hhigh
    rw [if_neg hhigh] at hqueue
    -- the POWER_ON is delivered to a CPU that is running
    obtain ⟨s', hs'⟩ := (hall [] s₀ .nil).2 (.deliver [] []) (by rw [← htick] at hevent; exact hevent)
    have hfails : s₀.cpu.handleMsg p.cpu s₀.curTick SimpleEnergySM.State.powerOn.msg = none :=
      handleMsg_powerOn_scheduled (by rw [hcpu]; exact (Event.due_eq_some.mp hdue).1)
    have hnot : s₀.step p (.deliver [] []) = none := by
      show s₀.deliver p [] [] = none
      unfold PowerSys.deliver
      rw [hqueue, List.head?_cons, Option.bind_some, hfails, Option.bind_none]
    rw [hnot] at hs'
    cases hs'
  · intro hlow
    rw [if_pos hlow] at hqueue
    have hwell : s₀.Well := by
      refine ⟨hcalm, ⟨?_, ?_⟩, ?_, ?_⟩
      · rw [hnone, hqueue]
        exact ⟨fun m hm => (Option.some.inj hm).symm, fun m hm => Or.inl (List.mem_singleton.mp hm), .singleton _⟩
      · rw [hnone, hqueue, hstate]
        rfl
      · intro _
        rw [hcpu, htick]
        exact ⟨w, hdue, hw⟩
      · rw [hnone]
        intro hlast
        cases hlast
    refine ⟨s₀, hboot, fun acts s hrun => ?_⟩
    have hs := hwell.of_run hrun
    refine ⟨hs.sent.wellFormed.left, fun a hleg => ?_⟩
    obtain ⟨s', hs', -⟩ := hs.step hleg
    exact ⟨s', hs'⟩

/-- A CPU whose first tick is due at 0, a profile with one sample, and a harvest every 10 ticks. -/
def demoPower (sample : Rat) : PowerParams := ⟨.default 10 [sample], ⟨10, 2, 3, 13 / 10⟩⟩

/-- The CPU at the start. -/
def freshCpu : AtomicCpu := ⟨⟨0, true⟩, 0, 0, []⟩

/-- The theorem with the thresholds 2 and 5 and a first sample of 1. -/
theorem startup_wellFormed_low : freshCpu.tickEvent.due = some 0 ∧ StartsLow (demoPower 1).mgmt 2 5 ∧
      ∃ s₀, boot (demoPower 1) 2 5 0 freshCpu = some s₀ ∧
        ∀ acts s, Run (Guarded (stepOf (PowerSys.step (demoPower 1))) Legal) s₀ acts s →
          SimpleEnergySM.WellFormed s.delivered := by
  have hdue : freshCpu.tickEvent.due = some 0 := rfl
  have hlow : StartsLow (demoPower 1).mgmt 2 5 := by decide +kernel
  obtain ⟨s₀, hboot, hall⟩ :=
    (startup_wellFormed_iff (demoPower 1) 2 5 hdue (Nat.le_refl 0)).mpr hlow
  exact ⟨hdue, hlow, s₀, hboot, fun acts s hrun => (hall acts s hrun).1⟩

/-- With a first sample of 6: POWER_ON is queued before POWER_OFF, and its delivery fails. -/
theorem startup_schedules_twice :
    (boot (demoPower 6) 2 5 0 freshCpu).map (fun s => (s.mgmt.msgTogo, s.mgmt.eventMsg.due)) =
        some ([SimpleEnergySM.State.powerOn.msg, SimpleEnergySM.State.powerOff.msg], some 0) ∧
      (boot (demoPower 6) 2 5 0 freshCpu).bind
        (fun s => (s.step (demoPower 6) (.deliver [] [])).map PowerSys.delivered) = none := by
  decide +kernel

end PowerSys

end NvpSim.Cpu
