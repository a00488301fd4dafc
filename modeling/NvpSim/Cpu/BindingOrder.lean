/-
  Does it matter in which order the slaves are bound to the energy port?

  `MasterEnergyPort::broadcastMsg` hands a message to one slave after the other, and a device that recovers at
  POWER_ON calls the CPU from within its handler: `virtualDeviceRecover` RESCHEDULES the tick event, which the
  CPU schedules when it is handed the POWER_ON itself.  So a device that recovers and is bound BEFORE the CPU
  fails an assertion.
-/
import NvpSim.Cpu.MessageNumbers
import NvpSim.Cpu.Recovery
import NvpSim.Vdev.OneEvent

namespace NvpSim.Cpu

open NvpSim.Sim NvpSim.Lib NvpSim.Energy NvpSim.Vdev List Option

/-! ## The slaves of the energy port -/

/-- A slave: the CPU, or a device. -/
inductive Slave where
  | cpu
  | vdev (k : Nat)
  deriving DecidableEq, Repr

/-- The slaves in the order in which they are bound; every order of one CPU and some devices is of
    this form. -/
def slaveList (before after : List Nat) : List Slave :=
  before.map .vdev ++ .cpu :: after.map .vdev

/-- The parameters of the CPU and of the devices. -/
structure BoundParams where
  cpu : AtomicCpuParams
  vdev : Nat → VirtualDeviceParams

/-- The CPU and the devices. -/
structure BoundSys where
  cpu : AtomicCpu
  vdev : Nat → VirtualDevice

namespace BoundSys

variable (p : BoundParams) (t : Tick) (msg : EnergyMsg)

/-- `slave_list[i]->handleMsg(msg)`; what a device calls on the CPU meanwhile is done at once. -/
def handleMsg (s : BoundSys) : Slave → Option (BoundSys × Int)
  | .cpu => (s.cpu.handleMsg p.cpu t msg).map fun r => ({ s with cpu := r.1 }, r.2)
  | .vdev k => ((s.vdev k).handleMsg (p.vdev k) t msg).bind fun r =>
      ((r.1.cpuCalls.drop (s.vdev k).cpuCalls.length).foldlM (AtomicCpu.vdevCall p.cpu t)
        s.cpu).map fun c => ({ s with cpu := c, vdev := Function.update s.vdev k r.1 }, r.2)

/-- One turn of the loop: a slave that does not know the message clears `rlt`. -/
def turn (s : BoundSys × Int) (slave : Slave) : Option (BoundSys × Int) :=
  (s.1.handleMsg p t msg slave).map fun r => (r.1, if r.2 = 0 then 0 else s.2)

/-- `MasterEnergyPort::broadcastMsg(msg)`: the system and `rlt`. -/
def broadcastMsg (slaves : List Slave) (s : BoundSys) : Option (BoundSys × Int) :=
  exec (turn p t msg) (s, if slaves.length = 0 then 0 else 1) slaves

/-- A POWER_OFF at `t₁` and a POWER_ON at `t₂`. -/
def powerCycle (t₁ t₂ : Tick) (slaves : List Slave) (s : BoundSys) : Option (BoundSys × Int) :=
  (s.broadcastMsg p t₁ ⟨SimpleEnergySM.MsgType.powerOff.toInt, 0⟩ slaves).bind fun r =>
    r.1.broadcastMsg p t₂ ⟨SimpleEnergySM.MsgType.powerOn.toInt, 0⟩ slaves

end BoundSys

/-! ## The calls on the CPU -/

namespace AtomicCpu

variable {p : AtomicCpuParams} {c c' : AtomicCpu} {t w : Tick}

/-- The tick event later by `delay`. -/
def delayed (c : AtomicCpu) (delay : Nat) : AtomicCpu :=
  { c with tickEvent := ⟨c.tickEvent.when + delay, true⟩ }

/-- The CPU is started, and no time of recovery is noted. -/
def Started (t : Tick) (c : AtomicCpu) : Prop :=
  c.tickEvent.scheduled = true ∧ t ≤ c.tickEvent.when ∧ c.recoverTime = 0

theorem Started.delayed (h : c.Started t) (delay : Nat) : (c.delayed delay).Started t :=
  ⟨rfl, h.2.1.trans (Nat.le_add_right ..), h.2.2⟩

theorem Started.delayed_zero (h : c.Started t) : c.delayed 0 = c := by
  obtain ⟨⟨when, scheduled⟩, _, _, _⟩ := c
  obtain ⟨rfl, -⟩ := h
  rfl

theorem Started.foldl_delayed (h : c.Started t) (wait : Nat → Nat) (ks : List Nat) :
    ks.foldl (fun c k => c.delayed (wait k)) c = c.delayed (ks.map wait).sum := by
  induction ks generalizing c with
  | nil => exact h.delayed_zero.symm
  | cons k ks ih =>
    rw [foldl_cons, ih (h.delayed _), map_cons]
    show AtomicCpu.mk ⟨c.tickEvent.when + wait k + _, true⟩ _ _ _ = _
    rw [Nat.add_assoc]
    rfl

theorem Started.virtualDeviceRecover (h : c.Started t) (delay : Nat) :
    c.virtualDeviceRecover t delay = some (c.delayed delay) :=
  virtualDeviceRecover_adds h.2.2 (Event.due_eq_some.mpr ⟨h.1, rfl⟩) h.2.1 delay

theorem vdevCall_stopped {call : CpuCall} (h : c.tickEvent.scheduled = false)
    (hs : c.vdevCall p t call = some c') : c'.tickEvent.scheduled = false := by
  have hno : ∀ w, c.tickEvent.reschedule t w = none := fun w => if_neg (by simp [h])
  cases call with
  | virtualDeviceInterrupt _ delay =>
    simp only [vdevCall, virtualDeviceInterrupt, hno] at hs
    cases hs
  | virtualDeviceRecover _ delay =>
    simp only [vdevCall, AtomicCpu.virtualDeviceRecover, hno] at hs
    cases hs
  | virtualDeviceStart _ | virtualDeviceEnd _ =>
    cases hs
    exact h

theorem foldlM_vdevCall_stopped {calls : List CpuCall} (h : c.tickEvent.scheduled = false)
    (hs : calls.foldlM (vdevCall p t) c = some c') : c'.tickEvent.scheduled = false := by
  induction calls generalizing c with
  | nil =>
    cases hs
    exact h
  | cons call calls ih =>
    obtain ⟨c₁, h₁, h'⟩ := bind_eq_some_iff.mp hs
    exact ih (vdevCall_stopped h h₁) h'

/-- **POWER_OFF** stops the CPU. -/
theorem handleMsg_stops (p : AtomicCpuParams) (t : Tick) (h : c.tickEvent.due = some w) :
    ∃ c', c.handleMsg p t ⟨SimpleEnergySM.MsgType.powerOff.toInt, 0⟩ = some (c', 1) ∧
      c'.tickEvent.scheduled = false ∧ c'.recoverTime = 0 := by
  simp only [handleMsg, if_true, Event.deschedule_of_due_some h, map_some]
  exact ⟨_, rfl, rfl, rfl⟩

/-- **POWER_ON** starts it. -/
theorem handleMsg_starts (p : AtomicCpuParams) (t : Tick) (h : c.tickEvent.scheduled = false)
    (hzero : c.recoverTime = 0) : ∃ c', c.handleMsg p t ⟨SimpleEnergySM.MsgType.powerOn.toInt, 0⟩ = some (c', 1) ∧
      c'.Started t ∧ c'.tickEvent.when = t + p.cycleRestore * p.period := by
  have hsched := Event.schedule_of_due_none (Event.due_eq_none.mpr h) (Nat.le_add_right t (p.cycleRestore * p.period))
  have hne : SimpleEnergySM.MsgType.powerOn.toInt ≠ SimpleEnergySM.MsgType.powerOff.toInt := by
    decide
  simp only [handleMsg, hne, if_true, if_false, Nat.zero_add, hsched, map_some]
  exact ⟨_, rfl, ⟨rfl, Nat.le_add_right .., hzero⟩, rfl⟩

end AtomicCpu

/-! ## A broadcast to a part of the slaves -/

namespace BoundSys

variable {p : BoundParams} {t : Tick} {msg : EnergyMsg} {s : BoundSys} {r : Int}

variable {ks : List Nat} {f : Nat → VirtualDevice} {g : Nat → AtomicCpu → AtomicCpu} {C : AtomicCpu → Prop}

/-- **A row of devices**: each takes its own step, and its calls have their effect on the CPU. -/
theorem exec_devices (hks : ks.Nodup) (hdev : ∀ k ∈ ks, (s.vdev k).handleMsg (p.vdev k) t msg = some (f k, 1))
    (hcalls : ∀ k ∈ ks, ∀ c, C c →
      ((f k).cpuCalls.drop (s.vdev k).cpuCalls.length).foldlM (AtomicCpu.vdevCall p.cpu t) c =
        some (g k c) ∧ C (g k c)) (hC : C s.cpu) : exec (turn p t msg) (s, r) (ks.map .vdev) =
      some (⟨ks.foldl (fun c k => g k c) s.cpu, fun k => if k ∈ ks then f k else s.vdev k⟩, r) := by
  induction ks generalizing s with
  | nil => simp [exec]
  | cons k ks ih =>
    obtain ⟨hk, hks⟩ := nodup_cons.mp hks
    obtain ⟨hcalls₁, hC₁⟩ := hcalls k (mem_cons_self ..) s.cpu hC
    have hturn : turn p t msg (s, r) (.vdev k) = some (⟨g k s.cpu, Function.update s.vdev k (f k)⟩, r) := by
      simp [turn, handleMsg, hdev k (mem_cons_self ..), hcalls₁]
    -- the devices that follow are as they were
    have hrest : ∀ k' ∈ ks, Function.update s.vdev k (f k) k' = s.vdev k' := fun k' hk' =>
      Function.update_of_ne (fun heq : k' = k => hk (heq ▸ hk')) ..
    rw [map_cons, exec, hturn, bind_some, ih hks]
    · congr 3
      funext k'
      by_cases hk' : k' = k
      · subst hk'
        simp [hk]
      · simp [hk']
    · intro k' hk'
      show (Function.update s.vdev k (f k) k').handleMsg _ _ _ = _
      rw [hrest k' hk']
      exact hdev k' (mem_cons_of_mem _ hk')
    · intro k' hk'
      show ∀ c, C c → (List.drop (Function.update s.vdev k (f k) k').cpuCalls.length _).foldlM _ c = _ ∧ _
      rw [hrest k' hk']
      exact hcalls k' (mem_cons_of_mem _ hk')
    · exact hC₁

theorem turn_vdev_of_ne {s' : BoundSys × Int} {slave : Slave} {k : Nat} (hne : slave ≠ .vdev k)
    (hs : turn p t msg (s, r) slave = some s') : s'.1.vdev k = s.vdev k := by
  obtain ⟨u, hu, rfl⟩ := map_eq_some_iff.mp hs
  cases slave with
  | cpu =>
    obtain ⟨c, -, rfl⟩ := map_eq_some_iff.mp hu
    rfl
  | vdev k' =>
    obtain ⟨d, -, hd⟩ := bind_eq_some_iff.mp hu
    obtain ⟨c, -, rfl⟩ := map_eq_some_iff.mp hd
    exact Function.update_of_ne (fun heq => hne (congrArg _ heq.symm)) ..

theorem broadcastMsg_eq_none {slaves : List Slave} {k : Nat} (hk : .vdev k ∈ slaves)
    (hfail : (s.vdev k).handleMsg (p.vdev k) t msg = none) : s.broadcastMsg p t msg slaves = none := by
  refine exec_eq_none (P := fun u => u.1.vdev k = s.vdev k) hk ?_ ?_ rfl
  · intro u hu
    show Option.map _ (Option.bind _ _) = _
    rw [hu, hfail]
    rfl
  · intro slave _ hne u u' hu hu'
    exact (turn_vdev_of_ne hne hu').trans hu

theorem exec_devices_eq_none {k : Nat} {f : VirtualDevice} {delay : Tick} {name : String}
    {calls : List CpuCall} (hk : k ∈ ks) (hstop : s.cpu.tickEvent.scheduled = false)
    (hdev : (s.vdev k).handleMsg (p.vdev k) t msg = some (f, 1))
    (hcalls : f.cpuCalls = (s.vdev k).cpuCalls ++ .virtualDeviceRecover name delay :: calls) :
    exec (turn p t msg) (s, r) (ks.map .vdev) = none := by
  refine exec_eq_none (a := .vdev k) (P := fun u => u.1.vdev k = s.vdev k ∧ u.1.cpu.tickEvent.scheduled = false)
    (List.mem_map_of_mem hk) ?_ ?_ ⟨rfl, hstop⟩
  · rintro u ⟨hu, hstop'⟩
    have hno : u.1.cpu.virtualDeviceRecover t delay = none := by
      unfold AtomicCpu.virtualDeviceRecover Event.reschedule
      simp [hstop']
    show Option.map _ (Option.bind _ _) = _
    rw [hu, hdev, bind_some, hcalls, drop_left]
    show Option.map _ (Option.map _ (Option.bind (u.1.cpu.virtualDeviceRecover t delay) _)) = _
    rw [hno]
    rfl
  · rintro slave hslave hne u u' ⟨hu, hstop'⟩ hu'
    refine ⟨(turn_vdev_of_ne hne hu').trans hu, ?_⟩
    obtain ⟨k', -, rfl⟩ := List.mem_map.mp hslave
    obtain ⟨v, hv, rfl⟩ := map_eq_some_iff.mp hu'
    obtain ⟨d, -, hd⟩ := bind_eq_some_iff.mp hv
    obtain ⟨c, hc, rfl⟩ := map_eq_some_iff.mp hd
    exact AtomicCpu.foldlM_vdevCall_stopped hstop' hc

theorem broadcastMsg_slaveList (before after : List Nat) : s.broadcastMsg p t msg (slaveList before after) =
      ((exec (turn p t msg) (s, 1) (before.map .vdev)).bind fun u =>
        (turn p t msg u .cpu).bind fun u => exec (turn p t msg) u (after.map .vdev)) := by
  unfold broadcastMsg slaveList
  rw [exec_append, if_neg (by simp)]
  rfl

/-- **A broadcast that goes through**: the devices before the CPU do not call it, and the calls of
    the devices after it have their effect. -/
theorem broadcastMsg_of_quiet {before after : List Nat} {c' : AtomicCpu} (hnodup : (before ++ after).Nodup)
    (hdev : ∀ k ∈ before ++ after, (s.vdev k).handleMsg (p.vdev k) t msg = some (f k, 1))
    (hquiet : ∀ k ∈ before, (f k).cpuCalls = (s.vdev k).cpuCalls)
    (hcpu : s.cpu.handleMsg p.cpu t msg = some (c', 1)) (hcalls : ∀ k ∈ after, ∀ c, C c →
      ((f k).cpuCalls.drop (s.vdev k).cpuCalls.length).foldlM (AtomicCpu.vdevCall p.cpu t) c =
        some (g k c) ∧ C (g k c)) (hC : C c') : s.broadcastMsg p t msg (slaveList before after) =
      some (⟨after.foldl (fun c k => g k c) c', fun k => if k ∈ before ++ after then f k else s.vdev k⟩, 1) := by
  obtain ⟨hbefore, hafter, hdisj⟩ := nodup_append.mp hnodup
  have hfirst : exec (turn p t msg) (s, 1) (before.map .vdev) =
      some (⟨s.cpu, fun k => if k ∈ before then f k else s.vdev k⟩, 1) := by
    rw [exec_devices (g := fun _ c => c) (C := fun _ => True) hbefore
      (fun k hk => hdev k (mem_append_left _ hk)) _ trivial, foldl_fixed]
    intro k hk c _
    rw [hquiet k hk, drop_length]
    exact ⟨rfl, trivial⟩
  have hown : turn p t msg (⟨s.cpu, fun k => if k ∈ before then f k else s.vdev k⟩, 1) .cpu =
      some (⟨c', fun k => if k ∈ before then f k else s.vdev k⟩, 1) := by
    simp [turn, handleMsg, hcpu]
  -- the devices after the CPU have not been touched yet
  have hrest : ∀ k ∈ after, (if k ∈ before then f k else s.vdev k) = s.vdev k := fun k hk =>
    if_neg fun hk' => hdisj k hk' k hk rfl
  rw [broadcastMsg_slaveList, hfirst, bind_some, hown, bind_some,
    exec_devices (f := f) (g := g) (C := C) hafter _ _ hC]
  · congr 3
    funext k
    by_cases hk : k ∈ after
    · simp [hk]
    · simp [hk]
  · intro k hk
    show (if k ∈ before then f k else s.vdev k).handleMsg _ _ _ = _
    rw [hrest k hk]
    exact hdev k (mem_append_right _ hk)
  · intro k hk
    show ∀ c, C c → (List.drop (if k ∈ before then f k else s.vdev k).cpuCalls.length _).foldlM
      _ c = _ ∧ _
    rw [hrest k hk]
    exact hcalls k hk

/-- The devices `ks` after a POWER_OFF at `t₁`, `off`, and after a POWER_ON at `t₂`, `on`. -/
structure Cycled (p : BoundParams) (t₁ t₂ : Tick) (s : BoundSys) (ks : List Nat)
    (off on : Nat → VirtualDevice) : Prop where
  off_msg : ∀ k ∈ ks, (s.vdev k).handleMsg (p.vdev k) t₁ ⟨SimpleEnergySM.MsgType.powerOff.toInt, 0⟩ = some (off k, 1)
  off_calls : ∀ k ∈ ks, (off k).cpuCalls = (s.vdev k).cpuCalls
  on_msg : ∀ k ∈ ks, (off k).handleMsg (p.vdev k) t₂ ⟨SimpleEnergySM.MsgType.powerOn.toInt, 0⟩ = some (on k, 1)
  on_calls : ∀ k ∈ ks, (on k).cpuCalls = (off k).cpuCalls ++ (if recovers (s.vdev k) then
    [.virtualDeviceRecover (p.vdev k).devName (p.vdev k).delaySet, .virtualDeviceStart (p.vdev k).id] else [])

theorem exists_cycled (p : BoundParams) (t₁ t₂ : Tick) (hone : ∀ k ∈ ks, OneEvent (s.vdev k))
    (hbyte : ∀ k ∈ ks, reinitialising (s.vdev k) = false) : ∃ off on, Cycled p t₁ t₂ s ks off on := by
  have : Nonempty VirtualDevice := ⟨s.vdev 0⟩
  have hcycle : ∀ k ∈ ks, ∃ d d', (s.vdev k).powerOff (p.vdev k) t₁ = some d ∧ d.cpuCalls = (s.vdev k).cpuCalls ∧
      d.powerOn (p.vdev k) t₂ = some d' ∧ d'.cpuCalls = d.cpuCalls ++ (if recovers (s.vdev k) then
        [.virtualDeviceRecover (p.vdev k).devName (p.vdev k).delaySet,
          .virtualDeviceStart (p.vdev k).id] else []) := by
    intro k hk
    obtain ⟨d, hd, -, hinit, -, hcalls, hrec⟩ := powerOff_spec (p.vdev k) t₁ (hone k hk) (hbyte k hk)
    obtain ⟨d', hd', hcalls'⟩ := powerOn_spec (p.vdev k) t₂ hinit
    rw [hrec] at hcalls'
    exact ⟨d, d', hd, hcalls, hd', hcalls'⟩
  choose! off on hcycle using hcycle
  refine ⟨off, on, ⟨?_, fun k hk => (hcycle k hk).2.1, ?_, fun k hk => (hcycle k hk).2.2.2⟩⟩
  · intro k hk
    rw [handleMsg_powerOff_eq, (hcycle k hk).1]
    rfl
  · intro k hk
    rw [handleMsg_powerOn_eq, (hcycle k hk).2.2.1]
    rfl

/-- How long the CPU waits for a device. -/
def wait (p : BoundParams) (s : BoundSys) (k : Nat) : Nat :=
  if recovers (s.vdev k) then (p.vdev k).delaySet else 0

/-- Where the tick event is due after a power cycle: each device that recovers adds its delay. -/
def wakeUp (p : BoundParams) (t₂ : Tick) (ks : List Nat) (s : BoundSys) : Tick :=
  t₂ + p.cpu.cycleRestore * p.cpu.period + (ks.map (s.wait p)).sum

namespace Cycled

variable {t₁ t₂ : Tick} {ks before after : List Nat} {off on : Nat → VirtualDevice} {c c' : AtomicCpu}

/-- **The POWER_OFF** goes through in every order. -/
theorem broadcast_off (h : Cycled p t₁ t₂ s ks off on) (hks : ks.Nodup)
    (hcpu : s.cpu.handleMsg p.cpu t₁ ⟨SimpleEnergySM.MsgType.powerOff.toInt, 0⟩ = some (c, 1))
    (hperm : (before ++ after).Perm ks) :
    s.broadcastMsg p t₁ ⟨SimpleEnergySM.MsgType.powerOff.toInt, 0⟩ (slaveList before after) =
      some (⟨c, fun k => if k ∈ ks then off k else s.vdev k⟩, 1) := by
  have hmem : ∀ k, k ∈ before ++ after ↔ k ∈ ks := fun k => hperm.mem_iff
  rw [broadcastMsg_of_quiet (f := off) (g := fun _ c => c) (C := fun _ => True)
    (hperm.nodup_iff.mpr hks) (fun k hk => h.off_msg k ((hmem k).mp hk)) _ hcpu _ trivial, foldl_fixed]
  · simp only [hmem]
  · intro k hk
    exact h.off_calls k ((hmem k).mp (mem_append_left _ hk))
  · intro k hk c _
    rw [h.off_calls k ((hmem k).mp (mem_append_right _ hk)), drop_length]
    exact ⟨rfl, trivial⟩

theorem calls_started (h : Cycled p t₁ t₂ s ks off on) {k : Nat} (hk : k ∈ ks) (hc : c.Started t₂) :
    ((on k).cpuCalls.drop (off k).cpuCalls.length).foldlM (AtomicCpu.vdevCall p.cpu t₂) c =
      some (c.delayed (s.wait p k)) := by
  unfold wait
  rw [h.on_calls k hk, drop_left]
  cases recovers (s.vdev k) with
  | false =>
    rw [if_neg (by decide), if_neg (by decide), hc.delayed_zero]
    rfl
  | true =>
    show Option.bind (c.virtualDeviceRecover t₂ _) _ = _
    rw [hc.virtualDeviceRecover]
    rfl

theorem sum_wait (hquiet : ∀ k ∈ before, recovers (s.vdev k) = false) (hperm : (before ++ after).Perm ks) :
    (after.map (s.wait p)).sum = (ks.map (s.wait p)).sum := by
  have hnone : (before.map (s.wait p)).sum = 0 := by
    rw [List.sum_eq_zero_iff_forall_eq_nat]
    intro x hx
    obtain ⟨k, hk, rfl⟩ := List.mem_map.mp hx
    exact if_neg (by rw [hquiet k hk]; decide)
  rw [← (hperm.map _).sum_eq, map_append, sum_append, hnone, Nat.zero_add]

/-- **The POWER_ON** goes through if the devices before the CPU do not recover. -/
theorem broadcast_on (h : Cycled p t₁ t₂ s ks off on) (hks : ks.Nodup)
    (hcpu : c.handleMsg p.cpu t₂ ⟨SimpleEnergySM.MsgType.powerOn.toInt, 0⟩ = some (c', 1))
    (hstart : c'.Started t₂) (hperm : (before ++ after).Perm ks)
    (hquiet : ∀ k ∈ before, recovers (s.vdev k) = false) :
    BoundSys.broadcastMsg p t₂ ⟨SimpleEnergySM.MsgType.powerOn.toInt, 0⟩ (slaveList before after)
        ⟨c, fun k => if k ∈ ks then off k else s.vdev k⟩ =
      some (⟨c'.delayed (ks.map (s.wait p)).sum, fun k => if k ∈ ks then on k else s.vdev k⟩, 1) := by
  have hmem : ∀ k, k ∈ before ++ after ↔ k ∈ ks := fun k => hperm.mem_iff
  rw [broadcastMsg_of_quiet (f := on) (g := fun k c => c.delayed (s.wait p k))
    (C := AtomicCpu.Started t₂) (hperm.nodup_iff.mpr hks) _ _ hcpu _ hstart,
    hstart.foldl_delayed, sum_wait hquiet hperm]
  · congr 3
    funext k
    simp only [hmem]
    split <;> rfl
  · intro k hk
    have hk' := (hmem k).mp hk
    show (if k ∈ ks then off k else s.vdev k).handleMsg _ _ _ = _
    rw [if_pos hk']
    exact h.on_msg k hk'
  · intro k hk
    have hk' := (hmem k).mp (mem_append_left _ hk)
    have hcalls := h.on_calls k hk'
    rw [hquiet k hk] at hcalls
    show _ = (if k ∈ ks then off k else s.vdev k).cpuCalls
    rw [if_pos hk', hcalls]
    exact append_nil _
  · intro k hk c hc
    have hk' := (hmem k).mp (mem_append_right _ hk)
    refine ⟨?_, hc.delayed _⟩
    show (List.drop (if k ∈ ks then off k else s.vdev k).cpuCalls.length _).foldlM _ c = _
    rw [if_pos hk']
    exact h.calls_started hk' hc

/-- **The POWER_ON fails** if one of them recovers. -/
theorem broadcast_on_none (h : Cycled p t₁ t₂ s ks off on) {k : Nat} (hk : k ∈ before)
    (hks : k ∈ ks) (hrec : recovers (s.vdev k) = true) (hstop : c.tickEvent.scheduled = false) :
    BoundSys.broadcastMsg p t₂ ⟨SimpleEnergySM.MsgType.powerOn.toInt, 0⟩ (slaveList before after)
      ⟨c, fun k => if k ∈ ks then off k else s.vdev k⟩ = none := by
  let s₁ : BoundSys := ⟨c, fun k => if k ∈ ks then off k else s.vdev k⟩
  have hoff : s₁.vdev k = off k := if_pos hks
  have hmsg := h.on_msg k hks
  have hcalls := h.on_calls k hks
  rw [hrec] at hcalls
  rw [← hoff] at hmsg hcalls
  show s₁.broadcastMsg p t₂ _ _ = none
  rw [broadcastMsg_slaveList, exec_devices_eq_none hk hstop hmsg hcalls]
  rfl

end Cycled

end BoundSys

/-- The device has got where it is in a run of its own. -/
def Reached (p : VirtualDeviceParams) (d : VirtualDevice) : Prop :=
  ∃ ls s, Run (Guarded (stepOf (Sys.step p)) (Sys.Legal p)) .boot ls s ∧ s.dev = d

/-- **The binding order.**  The CPU is running when the power fails.  A POWER_OFF and the POWER_ON
    that follows lead to one and the same state, and no assertion fails, for every order in which
    no device that recovers stands before the CPU, provided that no device has been told to
    initialise while it was ready; in all other cases an assertion fails. -/
theorem power_cycle_of_order (p : BoundParams) (t₁ t₂ : Tick) {ks : List Nat} {s : BoundSys}
    {w : Tick} (hks : ks.Nodup) (hcpu : s.cpu.tickEvent.due = some w)
    (hrun : ∀ k ∈ ks, Reached (p.vdev k) (s.vdev k)) :
    ∃ s' : BoundSys, s'.cpu.tickEvent.due = some (s.wakeUp p t₂ ks) ∧ ∀ before after, (before ++ after).Perm ks →
        s.powerCycle p t₁ t₂ (slaveList before after) =
          if (∀ k ∈ ks, reinitialising (s.vdev k) = false) ∧
              (∀ k ∈ before, recovers (s.vdev k) = false) then some (s', 1) else none := by
  have hone : ∀ k ∈ ks, OneEvent (s.vdev k) := by
    intro k hk
    obtain ⟨ls, u, h, heq⟩ := hrun k hk
    exact heq ▸ (engaged_of_run h).toOneEvent
  by_cases hbyte : ∀ k ∈ ks, reinitialising (s.vdev k) = false
  · obtain ⟨off, on, hcycle⟩ := BoundSys.exists_cycled p t₁ t₂ hone hbyte
    obtain ⟨c₁, hc₁, hstop, hzero⟩ := AtomicCpu.handleMsg_stops p.cpu t₁ hcpu
    obtain ⟨c₂, hc₂, hstart, hwhen⟩ := AtomicCpu.handleMsg_starts p.cpu t₂ hstop hzero
    refine ⟨⟨c₂.delayed (ks.map (s.wait p)).sum, fun k => if k ∈ ks then on k else s.vdev k⟩, ?_, ?_⟩
    · show some (c₂.tickEvent.when + _) = _
      rw [hwhen]
      rfl
    · intro before after hperm
      unfold BoundSys.powerCycle
      rw [hcycle.broadcast_off hks hc₁ hperm, bind_some]
      by_cases hquiet : ∀ k ∈ before, recovers (s.vdev k) = false
      · rw [if_pos ⟨hbyte, hquiet⟩, hcycle.broadcast_on hks hc₂ hstart hperm hquiet]
      · rw [if_neg fun h => hquiet h.2]
        obtain ⟨k, hk, hrec⟩ : ∃ k ∈ before, recovers (s.vdev k) = true := by
          simpa using hquiet
        exact hcycle.broadcast_on_none hk (hperm.mem_iff.mp (mem_append_left _ hk)) hrec hstop
  · -- the POWER_OFF itself fails
    refine ⟨⟨{ s.cpu with tickEvent := ⟨s.wakeUp p t₂ ks, true⟩ }, s.vdev⟩, rfl, ?_⟩
    intro before after hperm
    rw [if_neg fun h => hbyte h.1]
    obtain ⟨k, hk, hbad⟩ : ∃ k ∈ ks, reinitialising (s.vdev k) = true := by simpa using hbyte
    have hmem : Slave.vdev k ∈ slaveList before after := by
      have hk' := hperm.mem_iff.mpr hk
      simpa [slaveList] using hk'
    have hoff : (s.vdev k).handleMsg (p.vdev k) t₁ ⟨SimpleEnergySM.MsgType.powerOff.toInt, 0⟩ = none := by
      rw [handleMsg_powerOff_eq, powerOff_of_reinitialising (hone k hk) hbad]
      rfl
    unfold BoundSys.powerCycle
    rw [BoundSys.broadcastMsg_eq_none hmem hoff]
    rfl

/-- The demo CPU, whose next tick is due at 100, and one demo device. -/
def demoBound (d : VirtualDevice) : BoundSys := ⟨⟨⟨100, true⟩, 0, 0, []⟩, fun _ => d⟩

def demoBoundParams : BoundParams := ⟨demoCpu, fun _ => demoParams⟩

/-- The CPU is bound first: it wakes up 30 ticks after the POWER_ON, and 5 more for the device. -/
theorem power_cycle_cpu_first : ∃ d, Reached demoParams d ∧ recovers d = true ∧ reinitialising d = false ∧
      ∃ s', s'.cpu.tickEvent.due = some 235 ∧
        (demoBound d).powerCycle demoBoundParams 96 200 (slaveList [] [0]) = some (s', 1) := by
  have hrun : (exec (guardFn (Sys.step demoParams) (Sys.Legal demoParams)) .boot
      [.powerOff 0, .powerOn 0, .access 1 writeInit, .fireInit 6]).map
        (fun s => (recovers s.dev, reinitialising s.dev,
          (demoBound s.dev).wakeUp demoBoundParams 200 [0])) = some (true, false, 235) := by
    decide +kernel
  obtain ⟨u, hu, hobs⟩ := map_eq_some_iff.mp hrun
  simp only [Prod.mk.injEq] at hobs
  obtain ⟨hrec, hbyte, hwake⟩ := hobs
  have hreached : Reached demoParams u.dev := ⟨_, u, exec_guardFn_iff.mp hu, rfl⟩
  obtain ⟨s', hdue, hall⟩ := power_cycle_of_order demoBoundParams 96 200
    (s := demoBound u.dev) (by decide : [0].Nodup) rfl (fun _ _ => hreached)
  have hcycle := hall [] [0] (List.Perm.refl _)
  rw [if_pos ⟨fun _ _ => hbyte, by simp⟩] at hcycle
  exact ⟨u.dev, hreached, hrec, hbyte, s', hwake ▸ hdue, hcycle⟩

/-- **The device is bound first**: its report finds the tick event unscheduled. -/
theorem power_cycle_device_first : ∃ d, Reached demoParams d ∧ reinitialising d = false ∧
      ((demoBound d).powerCycle demoBoundParams 96 200 (slaveList [] [0])).isSome = true ∧
      (demoBound d).powerCycle demoBoundParams 96 200 (slaveList [0] []) = none := by
  have hrun : (exec (guardFn (Sys.step demoParams) (Sys.Legal demoParams)) .boot
      [.powerOff 0, .powerOn 0, .access 1 writeInit, .fireInit 6]).map (fun s => (reinitialising s.dev,
          ((demoBound s.dev).powerCycle demoBoundParams 96 200 (slaveList [] [0])).isSome,
          ((demoBound s.dev).powerCycle demoBoundParams 96 200 (slaveList [0] [])).isSome)) =
      some (false, true, false) := by
    decide +kernel
  obtain ⟨u, hu, hobs⟩ := map_eq_some_iff.mp hrun
  simp only [Prod.mk.injEq] at hobs
  obtain ⟨hbyte, hfirst, hlast⟩ := hobs
  exact ⟨u.dev, ⟨_, u, exec_guardFn_iff.mp hu, rfl⟩, hbyte, hfirst,
    isSome_eq_false_iff.mp hlast |> isNone_iff_eq_none.mp⟩

end NvpSim.Cpu
