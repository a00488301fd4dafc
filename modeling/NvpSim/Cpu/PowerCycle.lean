/-
  CPU time across a power cycle.

  When the power goes off, the tick event has `r` ticks left to run.  What the CPU owes after the matching
  POWER_ON is the restore delay, the backup delay and those `r` ticks, in whole clock periods (`owed`), and the
  tick event should come back within one period after it (`TimePreserved`).
-/
import NvpSim.Cpu.Atomic
import NvpSim.Lib.Run

namespace NvpSim.Cpu

open NvpSim.Base NvpSim.Sim NvpSim.Lib NvpSim.Energy Option

/-- What happens to the CPU, and when. -/
inductive CpuAct where
  | powerOff (t : Tick)
  | powerOn (t : Tick)
  | tick (t latency : Tick)
  | interrupt (t delay : Tick)
  | recover (t delay : Tick)

/-- The tick of an action. -/
def CpuAct.time : CpuAct → Tick
  | powerOff t | powerOn t | tick t _ | interrupt t _ | recover t _ => t

/-- The last power message; `off r` remembers how long the tick event still had to run. -/
inductive CpuPower where
  | on
  | off (remained : Tick)
  deriving DecidableEq, Repr

/-- The CPU in its environment. -/
structure CpuSys where
  cpu : AtomicCpu
  power : CpuPower
  curTick : Tick

namespace CpuSys

/-- A running CPU whose next tick is due at `w`. -/
def start (curTick w : Tick) : CpuSys := ⟨⟨⟨w, true⟩, 0, 0, []⟩, .on, curTick⟩

/-- One action.  The queue clears the flag of the tick event before it calls `tick`. -/
def step (p : AtomicCpuParams) (s : CpuSys) : CpuAct → Option CpuSys
  | .powerOff t =>
    (s.cpu.handleMsg p t ⟨SimpleEnergySM.MsgType.powerOff.toInt, 0⟩).map (fun r =>
      ⟨r.1, .off (s.cpu.tickEvent.when - t), t⟩)
  | .powerOn t =>
    (s.cpu.handleMsg p t ⟨SimpleEnergySM.MsgType.powerOn.toInt, 0⟩).map (fun r => ⟨r.1, .on, t⟩)
  | .tick t latency =>
    let c := { s.cpu with tickEvent := s.cpu.tickEvent.fired }
    (c.tick p t latency).map (fun c => ⟨c, s.power, t⟩)
  | .interrupt t delay => (s.cpu.virtualDeviceInterrupt p t delay).map (fun c => ⟨c, s.power, t⟩)
  | .recover t delay => (s.cpu.virtualDeviceRecover t delay).map (fun c => ⟨c, s.power, t⟩)

/-- Power messages alternate, everything else happens while powered on; the clock moves forward
    and not past the tick event, which fires exactly when it is due. -/
def Legal (s : CpuSys) (a : CpuAct) : Prop :=
  s.curTick ≤ a.time ∧ (s.cpu.tickEvent.scheduled = true → a.time ≤ s.cpu.tickEvent.when) ∧
    match a with
    | .powerOn _ => s.power ≠ .on
    | .powerOff _ | .interrupt _ _ | .recover _ _ => s.power = .on
    | .tick t _ => s.power = .on ∧ s.cpu.tickEvent.when = t

instance (s : CpuSys) (a : CpuAct) : Decidable (s.Legal a) :=
  match a with
  | .powerOn _ | .powerOff _ | .interrupt _ _ | .recover _ _ | .tick _ _ =>
    inferInstanceAs (Decidable (_ ∧ _ ∧ _))

/-- The tick event is on the queue exactly while the power is on, and never in the past. -/
structure Ticking (s : CpuSys) : Prop where
  on : s.power = .on → ∃ w, s.cpu.tickEvent.due = some w ∧ s.curTick ≤ w
  off : s.power ≠ .on → s.cpu.tickEvent.due = none

/-- **One action keeps the CPU ticking**, and fails no assertion. -/
theorem Ticking.step {p : AtomicCpuParams} {s : CpuSys} {a : CpuAct} (h : s.Ticking)
    (hleg : s.Legal a) : ∃ s', s.step p a = some s' ∧ s'.Ticking := by
  -- while powered on, the tick event is due at some `w` that the action does not pass
  have hdue : s.power = .on → ∃ w, s.cpu.tickEvent.due = some w ∧ a.time ≤ w := by
    intro hon
    obtain ⟨w, hw, -⟩ := h.on hon
    obtain ⟨hs, rfl⟩ := Event.due_eq_some.mp hw
    exact ⟨_, hw, hleg.2.1 hs⟩
  cases a with
  | powerOff t =>
    obtain ⟨w, hw, -⟩ := hdue hleg.2.2
    obtain ⟨c', hc', hnone⟩ := AtomicCpu.handleMsg_powerOff (p := p) (t := t) hw
    exact ⟨_, map_eq_some_iff.mpr ⟨_, hc', rfl⟩, nofun, fun _ => hnone⟩
  | powerOn t =>
    obtain ⟨c', hc', hsome⟩ := AtomicCpu.handleMsg_powerOn (p := p) (t := t) (h.off hleg.2.2)
    exact ⟨_, map_eq_some_iff.mpr ⟨_, hc', rfl⟩,
      fun _ => ⟨_, hsome, Nat.le_add_right _ _⟩, fun hoff => absurd rfl hoff⟩
  | tick t latency =>
    obtain ⟨c', w', hc', hw', hle⟩ := AtomicCpu.tick_due (p := p) (t := t)
      (c := { s.cpu with tickEvent := s.cpu.tickEvent.fired }) rfl latency
    exact ⟨_, map_eq_some_iff.mpr ⟨_, hc', rfl⟩, fun _ => ⟨w', hw', hle⟩, fun hoff => absurd hleg.2.2.1 hoff⟩
  | interrupt t delay =>
    obtain ⟨w, hw, hle⟩ := hdue hleg.2.2
    obtain ⟨c', w', hc', hw', hww⟩ := AtomicCpu.virtualDeviceInterrupt_due (p := p) hw hle delay
    exact ⟨_, map_eq_some_iff.mpr ⟨_, hc', rfl⟩, fun _ => ⟨w', hw', hle.trans hww⟩, fun hoff => absurd hleg.2.2 hoff⟩
  | recover t delay =>
    obtain ⟨w, hw, hle⟩ := hdue hleg.2.2
    obtain ⟨c', w', hc', hw', hww⟩ := AtomicCpu.virtualDeviceRecover_due hw hle delay
    exact ⟨_, map_eq_some_iff.mpr ⟨_, hc', rfl⟩, fun _ => ⟨w', hw', hle.trans hww⟩, fun hoff => absurd hleg.2.2 hoff⟩

theorem ticking_of_run {p : AtomicCpuParams} {t₀ w₀ : Tick} (h₀ : t₀ ≤ w₀) {as : List CpuAct}
    {s : CpuSys} (h : Run (Guarded (stepOf (step p)) Legal) (start t₀ w₀) as s) : s.Ticking := by
  refine h.inv ?_ ⟨fun _ => ⟨w₀, rfl, h₀⟩, fun hoff => absurd rfl hoff⟩
  rintro s a s' hs ⟨hstep, hleg⟩
  obtain ⟨s'', hs'', hs'⟩ := hs.step hleg
  cases hs''.symm.trans hstep
  exact hs'

end CpuSys

/-! ## The contract -/

/-- `t` ticks, rounded up to whole clock periods. -/
def roundUp (period t : Nat) : Nat := divCeil t period * period

/-- The time owed after POWER_ON for `r` ticks left at POWER_OFF. -/
def owed (p : AtomicCpuParams) (r : Tick) : Nat :=
  roundUp p.period (p.cycleRestore * p.period + r + p.cycleBackup * p.period)

/-- After a POWER_ON at `t` the tick event is due when the time owed has passed, at most one
    period later. -/
def TimePreserved (p : AtomicCpuParams) (r t : Tick) (c : AtomicCpu) : Prop :=
  ∃ w, c.tickEvent.due = some w ∧ t + owed p r ≤ w ∧ w ≤ t + owed p r + p.period

theorem roundUp_mul {period : Nat} (hP : 0 < period) (k : Nat) : roundUp period (k * period) = k * period := by
  unfold roundUp divCeil
  have hdiv : (k * period + period - 1) / period = k := by
    rw [Nat.add_sub_assoc hP, Nat.mul_comm, Nat.mul_add_div hP,
      Nat.div_eq_of_lt (Nat.sub_lt hP Nat.one_pos), Nat.add_zero]
  rw [hdiv]

theorem timePreserved_iff {p : AtomicCpuParams} (hP : 0 < p.period) {r t : Tick} {c : AtomicCpu}
    (hdue : c.tickEvent.due = some (t + p.cycleRestore * p.period)) :
    TimePreserved p r t c ↔ r = 0 ∧ p.cycleBackup = 0 := by
  have hle := (divCeil_bounds (a := p.cycleRestore * p.period + r + p.cycleBackup * p.period) hP).1
  constructor
  · rintro ⟨w, hw, hlow, -⟩
    cases hdue.symm.trans hw
    -- the time owed is at most the restore delay, so nothing is left for the other two
    have howed : owed p r ≤ p.cycleRestore * p.period := Nat.le_of_add_le_add_left hlow
    have hsum : p.cycleRestore * p.period + (r + p.cycleBackup * p.period) ≤ p.cycleRestore * p.period := by
      rw [← Nat.add_assoc]; exact hle.trans howed
    have hzero : r + p.cycleBackup * p.period = 0 := by
      have hsub := Nat.sub_le_sub_right hsum (p.cycleRestore * p.period)
      rw [Nat.add_sub_cancel_left, Nat.sub_self] at hsub
      exact Nat.le_zero.mp hsub
    obtain ⟨hr, hb⟩ := Nat.add_eq_zero_iff.mp hzero
    exact ⟨hr, (Nat.mul_eq_zero.mp hb).resolve_right hP.ne'⟩
  · rintro ⟨rfl, hb⟩
    have howed : owed p 0 = p.cycleRestore * p.period := by
      rw [owed, hb, Nat.zero_mul]
      exact roundUp_mul hP _
    refine ⟨_, hdue, ?_, ?_⟩
    · rw [howed]
    · rw [howed]; exact Nat.le_add_right _ _

/-- **CPU time across power cycles.**  In every run, at every POWER_ON that matches a POWER_OFF
    with `r` ticks left, no assertion fails and the tick event meets the contract if and only if
    there was nothing to carry over: `r = 0` and no backup cycles. -/
theorem cpu_time_preserved_iff (p : AtomicCpuParams) (hP : 0 < p.period) {t₀ w₀ : Tick}
    (h₀ : t₀ ≤ w₀) {as : List CpuAct} {s : CpuSys}
    (h : Run (Guarded (stepOf (CpuSys.step p)) CpuSys.Legal) (.start t₀ w₀) as s) {r : Tick}
    (hoff : s.power = .off r) (t : Tick) : ∃ s', s.step p (.powerOn t) = some s' ∧
      (TimePreserved p r t s'.cpu ↔ r = 0 ∧ p.cycleBackup = 0) := by
  have htick := CpuSys.ticking_of_run h₀ h
  have hnone : s.cpu.tickEvent.due = none := htick.off (by rw [hoff]; exact nofun)
  obtain ⟨c', hc', hdue⟩ := AtomicCpu.handleMsg_powerOn (p := p) (t := t) hnone
  exact ⟨_, map_eq_some_iff.mpr ⟨_, hc', rfl⟩, timePreserved_iff hP hdue⟩

/-- A clock period of 10 ticks, 2 cycles of backup and 3 of restore. -/
def demoCpu : AtomicCpuParams := ⟨10, 2, 3, 13 / 10⟩

/-- `cpu_time_preserved_iff` for a power-off four ticks before the next tick. -/
theorem cpu_time_preserved_iff_demo :
    ∃ s, exec (guardFn (CpuSys.step demoCpu) CpuSys.Legal) (.start 0 100) [.powerOff 96] = some s ∧ s.power = .off 4 ∧
      ∃ s', s.step demoCpu (.powerOn 200) = some s' ∧
        (TimePreserved demoCpu 4 200 s'.cpu ↔ (4 : Nat) = 0 ∧ demoCpu.cycleBackup = 0) := by
  refine exec_observe CpuSys.power (.off 4) (by decide +kernel) fun s hs hoff => ?_
  exact ⟨hoff, cpu_time_preserved_iff demoCpu (by decide) (by decide) (exec_guardFn_iff.mp hs) hoff 200⟩

/-- **Where CPU time is lost**: the power goes off at 96 with 4 ticks of a cycle left and comes back
    at 200.  The tick event is due at 230, the time owed ends at 260. -/
theorem power_cycle_discards_pending_work :
    ∃ s, Run (Guarded (stepOf (CpuSys.step demoCpu)) CpuSys.Legal) (.start 0 100) [.powerOff 96, .powerOn 200] s ∧
      s.cpu.tickEvent.due = some 230 ∧ 200 + owed demoCpu 4 = 260 ∧ ¬ TimePreserved demoCpu 4 200 s.cpu := by
  refine run_observe (fun s => s.cpu.tickEvent.due) (some 230) (by decide +kernel) fun s hs hdue => ?_
  refine ⟨hdue, by decide, ?_⟩
  rintro ⟨w, hw, hlow, -⟩
  cases hdue.symm.trans hw
  exact absurd hlow (by decide)

end NvpSim.Cpu
