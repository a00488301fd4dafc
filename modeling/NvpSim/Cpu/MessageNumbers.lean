/-
  Whose number is it? `SM_Retention` sends its messages to an `AtomicSimpleCPU` and to virtual devices, whose
  `handleMsg` compares the type of a message with the numbers of `SimpleEnergySM`.

  POWER_RET is 2, and so is the POWER_ON that the receivers know: a CPU that should stand still is started.  The
  real POWER_ON is 3 and starts nobody.  So once the first POWER_OFF has stopped the CPU, its tick event is
  scheduled again only by a retention.
-/
import NvpSim.Cpu.Atomic
import NvpSim.Energy.Broadcast
import NvpSim.Energy.Retention
import NvpSim.Vdev.Device

namespace NvpSim.Cpu

open NvpSim.Sim NvpSim.Lib NvpSim.Energy NvpSim.Vdev List Option

/-- A virtual device calls the CPU; `virtualDeviceStart` and `virtualDeviceEnd` only note in
    `status_vdev` that the device is at work. -/
def AtomicCpu.vdevCall (p : AtomicCpuParams) (curTick : Tick) (c : AtomicCpu) : CpuCall → Option AtomicCpu
  | .virtualDeviceInterrupt _ delay => c.virtualDeviceInterrupt p curTick delay
  | .virtualDeviceRecover _ delay => c.virtualDeviceRecover curTick delay
  | .virtualDeviceStart _ | .virtualDeviceEnd _ => some c

/-- The parameters of the system; `before` and `after` are the devices bound to the energy port before
    and after the CPU. -/
structure RetParams where
  mgmt : EnergyMgmtParams
  cpu : AtomicCpuParams
  vdev : Nat → VirtualDeviceParams
  before : List Nat
  after : List Nat

/-- The energy manager, the CPU and the devices. -/
structure RetSys where
  curTick : Tick
  mgmt : EnergyMgmt SMRetention
  cpu : AtomicCpu
  vdev : Nat → VirtualDevice

/-- What happens in the system. -/
inductive RetAct where
  | energy (val : Rat)
  | deliver
  | tick (latency : Tick)
  | access (k : Nat) (pkt : Packet)
  | fireInit (k : Nat)
  | fireInterrupt (k : Nat)
  | pass (tick : Tick)

namespace RetSys

variable (p : RetParams)

/-- What a handler of the CPU has asked of the energy manager. -/
def asked (s : RetSys) (c : AtomicCpu) : List Rat := c.consumed.drop s.cpu.consumed.length

/-- The CPU after one of its handlers, and the manager after what that asked of it. -/
def setCpu (s : RetSys) (c : AtomicCpu) : Option RetSys :=
  ((s.asked c).foldlM (EnergyMgmt.consumeEnergy p.mgmt s.curTick) s.mgmt).map fun m =>
    { s with cpu := c, mgmt := m }

/-- A device after one of its handlers, and the CPU after the calls that it has made. -/
def setVdev (s : RetSys) (k : Nat) (d : VirtualDevice) : Option RetSys :=
  ((d.cpuCalls.drop (s.vdev k).cpuCalls.length).foldlM (AtomicCpu.vdevCall p.cpu s.curTick)
    s.cpu).map fun c => { s with cpu := c, vdev := Function.update s.vdev k d }

/-- The CPU is handed a message. -/
def handleCpu (s : RetSys) (msg : EnergyMsg) : Option RetSys :=
  (s.cpu.handleMsg p.cpu s.curTick msg).bind fun r => s.setCpu p r.1

/-- A device is handed a message. -/
def handleVdev (msg : EnergyMsg) (s : RetSys) (k : Nat) : Option RetSys :=
  ((s.vdev k).handleMsg (p.vdev k) s.curTick msg).bind fun r => s.setVdev p k r.1

/-- The slaves of the energy port are handed a message, in the order in which they are bound. -/
def broadcast (s : RetSys) (msg : EnergyMsg) : Option RetSys := do
  let s ← p.before.foldlM (handleVdev p msg) s
  let s ← s.handleCpu p msg
  p.after.foldlM (handleVdev p msg) s

/-- `event_msg` fires. -/
def deliver (s : RetSys) : Option RetSys :=
  s.mgmt.msgTogo.head?.bind fun msg =>
    ({ s with mgmt := { s.mgmt with eventMsg := s.mgmt.eventMsg.fired } }.broadcast p msg).bind
      fun s => (s.mgmt.finishBroadcast s.curTick).map fun m => { s with mgmt := m }

/-- The CPU with its tick event taken off the queue. -/
def tickFired (s : RetSys) : AtomicCpu := { s.cpu with tickEvent := s.cpu.tickEvent.fired }

/-- One action.  `energy` is any consumption or harvest. -/
def step (s : RetSys) : RetAct → Option RetSys
  | .energy val => (s.mgmt.consumeEnergy p.mgmt s.curTick val).map fun m => { s with mgmt := m }
  | .deliver => s.deliver p
  | .tick latency => (s.tickFired.tick p.cpu s.curTick latency).bind (s.setCpu p)
  | .access k pkt => ((s.vdev k).access (p.vdev k) s.curTick pkt).bind fun r => s.setVdev p k r.1
  | .fireInit k =>
    ({ s.vdev k with eventInit := (s.vdev k).eventInit.fired }.triggerInterrupt (p.vdev k)
      s.curTick).bind (s.setVdev p k)
  | .fireInterrupt k =>
    ({ s.vdev k with eventInterrupt := (s.vdev k).eventInterrupt.fired }.triggerInterrupt (p.vdev k)
      s.curTick).bind (s.setVdev p k)
  | .pass tick => some { s with curTick := tick }

/-- Events fire when they are due, and time does not pass them. -/
def Legal (s : RetSys) : RetAct → Prop
  | .deliver => s.mgmt.eventMsg.due = some s.curTick
  | .tick _ => s.cpu.tickEvent.due = some s.curTick
  | .fireInit k => (s.vdev k).eventInit.due = some s.curTick
  | .fireInterrupt k => (s.vdev k).eventInterrupt.due = some s.curTick
  | .pass tick =>
    s.curTick ≤ tick ∧ (∀ w ∈ s.mgmt.eventMsg.due, tick ≤ w) ∧ ∀ w ∈ s.cpu.tickEvent.due, tick ≤ w
  | .energy _ | .access _ _ => True

instance (s : RetSys) (a : RetAct) : Decidable (s.Legal a) :=
  match a with
  | .deliver | .tick _ | .fireInit _ | .fireInterrupt _ => inferInstanceAs (Decidable (_ = _))
  | .pass tick =>
    inferInstanceAs (Decidable (_ ∧ (∀ w ∈ s.mgmt.eventMsg.due, tick ≤ w) ∧ ∀ w ∈ s.cpu.tickEvent.due, tick ≤ w))
  | .energy _ | .access _ _ => isTrue trivial

/-- `init()` of the energy manager, which harvests for the first time, and then of its state machine. -/
def boot (sm : SMRetention) (cpu : AtomicCpu) (vdev : Nat → VirtualDevice) : Option RetSys :=
  ((EnergyMgmt.new p.mgmt sm).energyHarvest p.mgmt 0).bind fun m =>
    ({ m with stateMachine := m.stateMachine.init.1 }.broadcastMsgs 0 m.stateMachine.init.2).map
      fun m => ⟨0, m, cpu, vdev⟩

/-- The energy that an action asks of the manager. -/
def requests (s : RetSys) : RetAct → List Rat
  | .energy val => [val]
  | .deliver =>
    (s.mgmt.msgTogo.head?.bind (s.cpu.handleMsg p.cpu s.curTick)).elim [] fun r => s.asked r.1
  | .tick latency => (s.tickFired.tick p.cpu s.curTick latency).elim [] s.asked
  | _ => []

/-- The action does not send the state machine into retention. -/
def NoRetention (s : RetSys) (a : RetAct) : Prop :=
  ∀ val ∈ s.requests p a, ¬ s.mgmt.stateMachine.Retains (s.mgmt.energyAfter p.mgmt val)

instance (s : RetSys) (a : RetAct) : Decidable (s.NoRetention p a) :=
  inferInstanceAs (Decidable (∀ val ∈ s.requests p a, ¬ _))

/-! ## What the receivers make of a message -/

variable {p : RetParams} {s s' : RetSys} {t : Tick} {c c' : AtomicCpu} {msg : EnergyMsg}

theorem vdevCall_scheduled {call : CpuCall} {cp : AtomicCpuParams}
    (h : c.vdevCall cp t call = some c') : c'.tickEvent.scheduled = c.tickEvent.scheduled := by
  have hmove : ∀ w, (c.tickEvent.reschedule t w).map (fun e => { c with tickEvent := e }) = some c' →
      c'.tickEvent.scheduled = c.tickEvent.scheduled := by
    intro w hw
    obtain ⟨e, he, rfl⟩ := map_eq_some_iff.mp hw
    obtain ⟨hcond, he⟩ := ite_none_right_eq_some.mp he
    cases he
    exact hcond.2.symm
  cases call with
  | virtualDeviceInterrupt name delay => exact hmove _ h
  | virtualDeviceRecover name delay => exact hmove _ h
  | virtualDeviceStart id | virtualDeviceEnd id =>
    cases h
    rfl

variable {d : VirtualDevice} {as : List RetAct} {a : RetAct}

theorem setVdev_keeps {k : Nat} (h : s.setVdev p k d = some s') :
    s'.mgmt = s.mgmt ∧ s'.cpu.tickEvent.scheduled = s.cpu.tickEvent.scheduled := by
  obtain ⟨c', hc', rfl⟩ := map_eq_some_iff.mp h
  refine ⟨rfl, ?_⟩
  have hcalls : ∀ (calls : List CpuCall) (c : AtomicCpu),
      calls.foldlM (AtomicCpu.vdevCall p.cpu s.curTick) c = some c' →
      c'.tickEvent.scheduled = c.tickEvent.scheduled := by
    intro calls
    induction calls with
    | nil =>
      intro c hc
      cases hc
      rfl
    | cons call calls ih =>
      intro c hc
      obtain ⟨c₁, hc₁, hc⟩ := bind_eq_some_iff.mp hc
      rw [ih c₁ hc, vdevCall_scheduled hc₁]
  exact hcalls _ _ hc'

theorem handleMsg_cpuCalls {vp : VirtualDeviceParams} {d' : VirtualDevice} {code : Int}
    (h : d.handleMsg vp t msg = some (d', code))
    (htype : msg.type ≠ SMRetention.MsgType.powerRet.toInt) : d'.cpuCalls = d.cpuCalls := by
  unfold VirtualDevice.handleMsg at h
  split at h
  · obtain ⟨d₁, hd₁, heq⟩ := map_eq_some_iff.mp h
    cases heq
    obtain ⟨d₂, hd₂, rfl⟩ := map_eq_some_iff.mp hd₁
    show d₂.cpuCalls = d.cpuCalls
    split at hd₂
    · cases hd₂
      rfl
    · split at hd₂
      · obtain ⟨e, -, rfl⟩ := map_eq_some_iff.mp hd₂
        rfl
      · split at hd₂
        · obtain ⟨e, -, rfl⟩ := map_eq_some_iff.mp hd₂
          rfl
        · cases hd₂
          rfl
  · split at h
    · rename_i hon
      exact absurd hon htype
    · cases h
      rfl

theorem handleVdevs_frame (htype : msg.type ≠ SMRetention.MsgType.powerRet.toInt) :
    ∀ (ks : List Nat) {s s' : RetSys}, ks.foldlM (handleVdev p msg) s = some s' →
      s'.mgmt = s.mgmt ∧ s'.cpu = s.cpu ∧ s'.curTick = s.curTick := by
  intro ks
  induction ks with
  | nil =>
    intro s s' h
    cases h
    exact ⟨rfl, rfl, rfl⟩
  | cons k ks ih =>
    intro s s' h
    obtain ⟨s₁, hs₁, h⟩ := bind_eq_some_iff.mp h
    obtain ⟨⟨d, code⟩, hd, hset⟩ := bind_eq_some_iff.mp hs₁
    have hcalls := handleMsg_cpuCalls hd htype
    unfold setVdev at hset
    rw [hcalls, drop_length] at hset
    cases hset
    have hrest := ih h
    exact hrest

theorem handleMsg_cases {cp : AtomicCpuParams} {code : Int} (h : c.handleMsg cp t msg = some (c', code)) :
    (msg.type = SMRetention.MsgType.powerOff.toInt ∧ c'.tickEvent.scheduled = false ∧
        c'.consumed = c.consumed ++ [cp.powerNormal * cp.cycleBackup]) ∨
      (msg.type = SMRetention.MsgType.powerRet.toInt ∧ c'.tickEvent.scheduled = true ∧
        c'.consumed = c.consumed ++ [cp.powerNormal * cp.cycleRestore]) ∨
      (msg.type ≠ SMRetention.MsgType.powerOff.toInt ∧
        msg.type ≠ SMRetention.MsgType.powerRet.toInt ∧ c'.tickEvent = c.tickEvent ∧ c'.consumed = c.consumed) := by
  unfold AtomicCpu.handleMsg at h
  split at h
  · rename_i hoff
    obtain ⟨e, he, heq⟩ := map_eq_some_iff.mp h
    cases heq
    obtain ⟨-, rfl⟩ := Event.deschedule_eq_some.mp he
    exact Or.inl ⟨hoff, rfl, rfl⟩
  · rename_i hoff
    split at h
    · rename_i hon
      obtain ⟨e, he, heq⟩ := map_eq_some_iff.mp h
      cases heq
      obtain ⟨-, -, rfl⟩ := Event.schedule_eq_some.mp he
      exact Or.inr (Or.inl ⟨hon, rfl, rfl⟩)
    · rename_i hon
      cases h
      exact Or.inr (Or.inr ⟨hoff, hon, rfl, rfl⟩)

/-! ## Runs without retention -/

/-- No retention is queued; the first message of all is POWER_OFF; and once it is delivered the CPU stands
    still. -/
structure Still (as : List RetAct) (s : RetSys) : Prop where
  noRet : ∀ msg ∈ s.mgmt.msgTogo, msg.type ≠ SMRetention.MsgType.powerRet.toInt
  first : .deliver ∉ as → s.mgmt.msgTogo.head? = some ⟨SMRetention.MsgType.powerOff.toInt, 0⟩
  off : .deliver ∈ as → s.cpu.tickEvent.scheduled = false

theorem consumeEnergy_noRet {m m' : EnergyMgmt SMRetention} {val : Rat} (h : m.consumeEnergy p.mgmt t val = some m')
    (hret : ¬ m.stateMachine.Retains (m.energyAfter p.mgmt val)) : ∃ msgs, m'.msgTogo = m.msgTogo ++ msgs ∧
      ∀ msg ∈ msgs, msg.type ≠ SMRetention.MsgType.powerRet.toInt := by
  refine ⟨_, EnergyMgmt.consumeEnergy_msgTogo h, ?_⟩
  intro msg hmsg htype
  exact hret ((SMRetention.powerRet_mem_update _ _).mp ⟨msg, hmsg, htype⟩)

theorem setCpu_noRet (h : s.setCpu p c = some s') (hone : (s.asked c).length ≤ 1)
    (hret : ∀ val ∈ s.asked c, ¬ s.mgmt.stateMachine.Retains (s.mgmt.energyAfter p.mgmt val)) :
    s'.cpu = c ∧ s'.curTick = s.curTick ∧ ∃ msgs, s'.mgmt.msgTogo = s.mgmt.msgTogo ++ msgs ∧
      ∀ msg ∈ msgs, msg.type ≠ SMRetention.MsgType.powerRet.toInt := by
  obtain ⟨m, hm, rfl⟩ := map_eq_some_iff.mp h
  refine ⟨rfl, rfl, ?_⟩
  match hasked : s.asked c with
  | [] =>
    rw [hasked] at hm
    cases hm
    exact ⟨[], (append_nil _).symm, by simp⟩
  | [val] =>
    rw [hasked] at hm
    obtain ⟨m₁, hm₁, heq⟩ := bind_eq_some_iff.mp hm
    cases heq
    exact consumeEnergy_noRet hm₁ (hret val (by rw [hasked]; exact mem_singleton_self val))
  | _ :: _ :: _ =>
    rw [hasked] at hone
    simp at hone

theorem Still.queue (h : Still as s) (ha : a ≠ .deliver)
    (hcpu : .deliver ∈ as → s'.cpu.tickEvent.scheduled = false) (msgs : List EnergyMsg)
    (hq : s'.mgmt.msgTogo = s.mgmt.msgTogo ++ msgs)
    (hmsgs : ∀ msg ∈ msgs, msg.type ≠ SMRetention.MsgType.powerRet.toInt) : Still (as ++ [a]) s' where
  noRet := by
    rw [hq]
    exact forall_mem_append.mpr ⟨h.noRet, hmsgs⟩
  first := by
    intro hno
    have hhead := h.first (fun hmem => hno (mem_append_left _ hmem))
    rw [hq]
    cases hold : s.mgmt.msgTogo with
    | nil => rw [hold] at hhead; cases hhead
    | cons msg rest => rw [hold] at hhead; exact hhead
  off := by
    intro hmem
    rcases mem_append.mp hmem with hmem | hmem
    · exact hcpu hmem
    · exact absurd (mem_singleton.mp hmem).symm ha

theorem Still.vdev (h : Still as s) (ha : a ≠ .deliver) {k : Nat}
    (hset : s.setVdev p k d = some s') : Still (as ++ [a]) s' := by
  obtain ⟨hmgmt, htick⟩ := setVdev_keeps hset
  refine h.queue ha ?_ [] (by rw [hmgmt, append_nil]) (by simp)
  intro hmem
  rw [htick]
  exact h.off hmem

/-- **A delivery leaves the CPU standing still.** -/
theorem Still.deliver (h : Still as s) (hno : s.NoRetention p .deliver)
    (hs : s.deliver p = some s') : Still (as ++ [.deliver]) s' := by
  obtain ⟨msg, hhead, hs⟩ := bind_eq_some_iff.mp hs
  obtain ⟨s₃, hs₃, hfin⟩ := bind_eq_some_iff.mp hs
  obtain ⟨m, hm, rfl⟩ := map_eq_some_iff.mp hfin
  have htype := h.noRet msg (mem_of_mem_head? hhead)
  -- the three parts of the broadcast
  obtain ⟨s₁, hs₁, hs₃⟩ := bind_eq_some_iff.mp hs₃
  obtain ⟨s₂, hs₂, hs₃⟩ := bind_eq_some_iff.mp hs₃
  obtain ⟨hmgmt₁, hcpu₁, htick₁⟩ := handleVdevs_frame htype _ hs₁
  obtain ⟨hmgmt₃, hcpu₃, -⟩ := handleVdevs_frame htype _ hs₃
  obtain ⟨⟨c, code⟩, hc, hset⟩ := bind_eq_some_iff.mp hs₂
  rw [hcpu₁, htick₁] at hc
  have hasked : s₁.asked c = s.asked c := by unfold asked; rw [hcpu₁]
  have hrequests : s.requests p .deliver = s.asked c := by
    show (s.mgmt.msgTogo.head?.bind (s.cpu.handleMsg p.cpu s.curTick)).elim [] _ = _
    rw [hhead]
    exact congrArg (fun r => Option.elim r [] fun r => s.asked r.1) hc
  have hcases := handleMsg_cases hc
  have hone : (s.asked c).length ≤ 1 := by
    unfold asked
    rcases hcases with ⟨-, -, hcons⟩ | ⟨-, -, hcons⟩ | ⟨-, -, -, hcons⟩ <;> rw [hcons] <;> simp
  obtain ⟨hcpu₂, -, msgs, hq, hmsgs⟩ := setCpu_noRet hset (hasked ▸ hone) (by
    intro val hval
    rw [hmgmt₁]
    exact hno val (by rw [hrequests, ← hasked]; exact hval))
  have hqueue : m.msgTogo = (s.mgmt.msgTogo ++ msgs).tail := by
    rw [EnergyMgmt.finishBroadcast_msgTogo hm, hmgmt₃, hq, hmgmt₁]
  refine ⟨?_, ?_, ?_⟩
  · intro msg' hmsg'
    change msg' ∈ m.msgTogo at hmsg'
    rw [hqueue] at hmsg'
    rcases mem_append.mp (mem_of_mem_tail hmsg') with hmsg' | hmsg'
    · exact h.noRet msg' hmsg'
    · exact hmsgs msg' hmsg'
  · intro hnot
    exact absurd (mem_append_right _ (mem_singleton_self _)) hnot
  · intro _
    show s₃.cpu.tickEvent.scheduled = false
    rw [hcpu₃, hcpu₂]
    rcases hcases with ⟨-, hoff, -⟩ | ⟨hret, -, -⟩ | ⟨hoff, -, hsame, -⟩
    · exact hoff
    · exact absurd hret htype
    · -- a message without effect is not the first one, so the CPU was stopped before
      rw [hsame]
      refine h.off ?_
      by_contra hmem
      have hfirst := h.first hmem
      rw [hhead] at hfirst
      cases hfirst
      exact hoff rfl

/-- **One action without retention.** -/
theorem Still.step (h : Still as s) (hleg : s.Legal a) (hno : s.NoRetention p a)
    (hs : s.step p a = some s') : Still (as ++ [a]) s' := by
  cases a with
  | deliver => exact h.deliver hno hs
  | energy val =>
    obtain ⟨m, hm, rfl⟩ := map_eq_some_iff.mp hs
    obtain ⟨msgs, hq, hmsgs⟩ := consumeEnergy_noRet hm (hno val (mem_singleton_self val))
    exact h.queue (by simp) h.off msgs hq hmsgs
  | tick latency =>
    -- the CPU can only tick before the first message
    obtain ⟨c, hc, hset⟩ := bind_eq_some_iff.mp hs
    have hrequests : s.requests p (.tick latency) = s.asked c := by
      show (s.tickFired.tick p.cpu s.curTick latency).elim [] s.asked = _
      rw [hc]
      rfl
    have hone : (s.asked c).length ≤ 1 := by
      obtain ⟨e, -, rfl⟩ := map_eq_some_iff.mp hc
      unfold asked tickFired
      simp
    obtain ⟨-, -, msgs, hq, hmsgs⟩ := setCpu_noRet hset hone (by
      intro val hval
      exact hno val (by rw [hrequests]; exact hval))
    refine h.queue (by simp) ?_ msgs hq hmsgs
    intro hmem
    have hdue := (Event.due_eq_some.mp hleg).1
    rw [h.off hmem] at hdue
    cases hdue
  | access k pkt =>
    obtain ⟨r, -, hset⟩ := bind_eq_some_iff.mp hs
    exact h.vdev (by simp) hset
  | fireInit k | fireInterrupt k =>
    obtain ⟨d, -, hset⟩ := bind_eq_some_iff.mp hs
    exact h.vdev (by simp) hset
  | pass tick =>
    cases hs
    exact h.queue (by simp) h.off [] (append_nil _).symm (by simp)

theorem boot_msgTogo {sm : SMRetention} {cpu : AtomicCpu} {vdev : Nat → VirtualDevice}
    (h : boot p sm cpu vdev = some s) (hstate : sm.state = .powerOff) (hfirst : ∀ e ∈ p.mgmt.profile.head?,
      (EnergyMgmt.new p.mgmt sm).energyAfter p.mgmt (-e) < sm.thresRetTo1) :
    s.mgmt.msgTogo = [⟨SMRetention.MsgType.powerOff.toInt, 0⟩] := by
  obtain ⟨m, hm, hs⟩ := bind_eq_some_iff.mp h
  obtain ⟨m', hm', rfl⟩ := map_eq_some_iff.mp hs
  obtain ⟨ev, -, rfl⟩ := EnergyMgmt.broadcastMsgs_eq_some hm'
  have hnil : m.msgTogo = [] := by
    rcases EnergyMgmt.energyHarvest_cases hm with ⟨-, rfl⟩ | ⟨e, m₁, ev, hlast, hm₁, rfl⟩
    · rfl
    · have hlow := hfirst e (getLast?_reverse.symm.trans hlast)
      -- below the threshold a machine that is off stays off, silently
      have hsilent : (sm.update ((EnergyMgmt.new p.mgmt sm).energyAfter p.mgmt (-e))).2 = [] := by
        unfold SMRetention.update
        rw [if_neg (by simp [hstate]), if_neg (by simp [hstate]), if_neg]
        rintro ⟨-, hge⟩
        exact absurd hlow (not_lt.mpr hge)
      exact (EnergyMgmt.consumeEnergy_msgTogo hm₁).trans (congrArg ([] ++ ·) hsilent)
  show m.msgTogo ++ _ = _
  rw [hnil]
  rfl

/-- **Without a retention the numbers agree.**  If the first harvest does not switch the machine on, and no
    action of a run sends it into retention, then after the first delivery the tick event of the CPU is
    scheduled only if the state machine is on: it is not scheduled at all. -/
theorem tick_scheduled_only_when_on {a b d : Rat} {cpu : AtomicCpu} {vdev : Nat → VirtualDevice}
    {s₀ : RetSys} {as : List RetAct} (hboot : boot p (.new a b d) cpu vdev = some s₀)
    (hfirst : ∀ e ∈ p.mgmt.profile.head?, (EnergyMgmt.new p.mgmt (SMRetention.new a b d)).energyAfter p.mgmt (-e) < d)
    (h : Run (Guarded (stepOf (step p)) fun s a => s.Legal a ∧ s.NoRetention p a) s₀ as s)
    (hdeliver : .deliver ∈ as) : s.cpu.tickEvent.scheduled = true → s.mgmt.stateMachine.state = .powerOn := by
  have hq := boot_msgTogo hboot rfl hfirst
  have hstart : Still [] s₀ := by
    refine ⟨?_, ?_, ?_⟩
    · intro msg hmsg
      rw [hq] at hmsg
      rw [mem_singleton.mp hmsg]
      decide
    · intro _
      rw [hq]
      rfl
    · intro hmem
      cases hmem
  have hstill : Still as s := by
    refine h.inv_hist ?_ hstart
    rintro as s a s' hs ⟨hstep, hleg, hno⟩
    exact hs.step hleg hno hstep
  intro hsched
  rw [hstill.off hdeliver] at hsched
  cases hsched

/-- A CPU with a period of 10 ticks and two devices; the energy comes from outside the profile. -/
def twoDevices : RetParams where
  mgmt := .default 100 []
  cpu := ⟨10, 1, 2, 1 / 10⟩
  vdev := fun k => ⟨k, false, 4096 * k, 16, 20, 50, 10, true⟩
  before := [0]
  after := [1]

/-- The system after `init()`: off at 1, retention at 3, on at 5, and the CPU about to tick. -/
def booted : Option RetSys :=
  boot twoDevices (.new 1 3 5) ⟨⟨10, true⟩, 0, 0, []⟩ fun _ => .new

/-- The energy rises to 6, and later falls to 2. -/
def intoRetention : List RetAct :=
  [.deliver, .energy (-6), .deliver, .pass 40, .energy 4, .deliver]

/-- The theorem at the rise alone, which leaves the CPU standing still although the machine is on. -/
theorem tick_not_scheduled_when_on : ∃ s₀ s, booted = some s₀ ∧
      exec (guardFn (step twoDevices) fun s a => s.Legal a ∧ s.NoRetention twoDevices a) s₀
        (intoRetention.take 4) = some s ∧ s.mgmt.stateMachine.state = .powerOn ∧ s.cpu.tickEvent.scheduled = false ∧
      (s.cpu.tickEvent.scheduled = true → s.mgmt.stateMachine.state = .powerOn) := by
  have hobs : (booted.bind fun s₀ =>
      exec (guardFn (step twoDevices) fun s a => s.Legal a ∧ s.NoRetention twoDevices a) s₀
        (intoRetention.take 4)).map
      (fun s => (s.mgmt.stateMachine.state, s.cpu.tickEvent.scheduled)) = some (.powerOn, false) := by
    decide +kernel
  obtain ⟨s, hs, hobs⟩ := map_eq_some_iff.mp hobs
  obtain ⟨s₀, hboot, hs⟩ := bind_eq_some_iff.mp hs
  refine ⟨s₀, s, hboot, hs, congrArg Prod.fst hobs, congrArg Prod.snd hobs, ?_⟩
  refine tick_scheduled_only_when_on hboot ?_ (exec_guardFn_iff.mp hs) (mem_cons_self ..)
  intro e he
  cases he

/-- **A retention is acted on as a power-on.**  When the energy falls into the retention band, the message
    POWER_RET starts the CPU: its tick event is scheduled while the state machine is in retention. -/
theorem retention_starts_cpu : ∃ s₀ s, booted = some s₀ ∧
      exec (guardFn (step twoDevices) Legal) s₀ intoRetention = some s ∧
      s.mgmt.stateMachine.state = .powerRetention ∧ s.cpu.tickEvent.scheduled = true := by
  have hobs : (booted.bind fun s₀ =>
      exec (guardFn (step twoDevices) Legal) s₀ intoRetention).map
      (fun s => (s.mgmt.stateMachine.state, s.cpu.tickEvent.scheduled)) = some (.powerRetention, true) := by
    decide +kernel
  obtain ⟨s, hs, hobs⟩ := map_eq_some_iff.mp hobs
  obtain ⟨s₀, hboot, hs⟩ := bind_eq_some_iff.mp hs
  exact ⟨s₀, s, hboot, hs, congrArg Prod.fst hobs, congrArg Prod.snd hobs⟩

end RetSys

end NvpSim.Cpu
