/-
  How long the CPU waits for its peripherals at power-on.

  Each device that recovers calls `virtualDeviceRecover` with its delay.  The devices recover in PARALLEL, so
  the CPU should wait for the slowest: `recover_time` is meant to be the longest delay so far, and a report
  moves the tick event by what the new delay has more than that.

  But `recover_time` is never assigned, except for the zero of each POWER_OFF.
-/
import NvpSim.Cpu.PowerCycle
import Mathlib.Algebra.BigOperators.Group.List.Basic

namespace NvpSim.Cpu

open NvpSim.Sim NvpSim.Lib NvpSim.Energy List Option

/-! ## Sums and maxima -/

/-- The longest of some delays. -/
def slowest (delays : List Nat) : Nat := delays.foldr max 0

theorem slowest_le_sum (delays : List Nat) : slowest delays ≤ delays.sum := by
  induction delays with
  | nil => exact Nat.le_refl 0
  | cons d delays ih =>
    show max d (slowest delays) ≤ _
    rw [sum_cons]
    omega

/-- **The sum is the maximum** exactly if at most one delay is positive. -/
theorem sum_eq_slowest_iff (delays : List Nat) :
    delays.sum = slowest delays ↔ (delays.filter (0 < ·)).length ≤ 1 := by
  induction delays with
  | nil => exact ⟨fun _ => Nat.zero_le 1, fun _ => rfl⟩
  | cons d delays ih =>
    have hle := slowest_le_sum delays
    rw [sum_cons]
    show d + delays.sum = max d (slowest delays) ↔ _
    rcases Nat.eq_zero_or_pos d with rfl | hd
    · rw [filter_cons_of_neg (by simp)]
      omega
    · rw [filter_cons_of_pos (by simpa using hd), length_cons]
      -- nothing may be added to `d`, so all others are zero
      have hzero : delays.sum = 0 ↔ (delays.filter (0 < ·)).length = 0 := by
        rw [length_eq_zero_iff, filter_eq_nil_iff, List.sum_eq_zero_iff_forall_eq_nat]
        constructor
        · intro h x hx
          rw [h x hx]
          decide
        · intro h x hx
          have hx' := h x hx
          rw [decide_eq_true_eq] at hx'
          omega
      constructor
      · intro h
        have hsum : delays.sum = 0 := by omega
        omega
      · intro h
        omega

/-! ## `recover_time` is always zero -/

theorem CpuSys.recoverTime_step {p : AtomicCpuParams} {s s' : CpuSys} {a : CpuAct}
    (h : s.cpu.recoverTime = 0) (hs : s.step p a = some s') : s'.cpu.recoverTime = 0 := by
  cases a with
  | powerOff t =>
    obtain ⟨r, hr, rfl⟩ := map_eq_some_iff.mp hs
    unfold AtomicCpu.handleMsg at hr
    obtain ⟨e, -, rfl⟩ := map_eq_some_iff.mp hr
    rfl
  | powerOn t =>
    obtain ⟨r, hr, rfl⟩ := map_eq_some_iff.mp hs
    unfold AtomicCpu.handleMsg at hr
    obtain ⟨e, -, rfl⟩ := map_eq_some_iff.mp hr
    exact h
  | tick t latency | interrupt t delay | recover t delay =>
    obtain ⟨c, hc, rfl⟩ := map_eq_some_iff.mp hs
    obtain ⟨e, -, rfl⟩ := map_eq_some_iff.mp hc
    exact h

theorem CpuSys.recoverTime_of_run {p : AtomicCpuParams} {t₀ w₀ : Tick} {as : List CpuAct} {s : CpuSys}
    (h : Run (Guarded (stepOf (step p)) Legal) (start t₀ w₀) as s) : s.cpu.recoverTime = 0 := by
  refine h.inv (P := fun s => s.cpu.recoverTime = 0) ?_ rfl
  rintro s a s' hs ⟨hstep, -⟩
  exact recoverTime_step hs hstep

/-! ## The reports of one power-on -/

namespace AtomicCpu

/-- The devices report one after the other; a report is its tick and its delay. -/
def recoverAll (c : AtomicCpu) (reports : List (Tick × Tick)) : Option AtomicCpu :=
  reports.foldlM (fun c r => c.virtualDeviceRecover r.1 r.2) c

/-- In whatever order the reports come, the tick event ends up behind `own` by the longest delay. -/
def RecoversInParallel (c : AtomicCpu) (own : Tick) (reports : List (Tick × Tick)) : Prop :=
  ∀ reports', reports'.Perm reports → ∃ c', c.recoverAll reports' = some c' ∧
      c'.tickEvent.due = some (own + slowest (reports.map Prod.snd))

variable {c : AtomicCpu} {t w : Tick}

section

variable (hzero : c.recoverTime = 0) (hdue : c.tickEvent.due = some w)

include hzero hdue

theorem virtualDeviceRecover_adds (hle : t ≤ w) (delay : Tick) :
    c.virtualDeviceRecover t delay = some { c with tickEvent := ⟨w + delay, true⟩ } := by
  have hw := (Event.due_eq_some.mp hdue).2
  have htime : ∀ w d : Nat, w - 0 + (if 0 ≥ d then 0 else d) = w + d := by
    intro w d
    split <;> omega
  have hnew : w - c.recoverTime + (if c.recoverTime ≥ delay then c.recoverTime else delay) = w + delay := by
    rw [hzero]
    exact htime w delay
  unfold virtualDeviceRecover
  dsimp only
  rw [hw, hnew, Event.reschedule_of_due_some hdue (hle.trans (Nat.le_add_right w delay))]
  rfl

/-- **All reports together add the sum of their delays.** -/
theorem recoverAll_adds {reports : List (Tick × Tick)} (hle : ∀ r ∈ reports, r.1 ≤ w) :
    ∃ c', c.recoverAll reports = some c' ∧ c'.tickEvent.due = some (w + (reports.map Prod.snd).sum) := by
  induction reports generalizing c w with
  | nil => exact ⟨c, rfl, hdue⟩
  | cons r reports ih =>
    have hr := virtualDeviceRecover_adds hzero hdue (hle r (mem_cons_self ..)) r.2
    obtain ⟨c', h', hdue'⟩ := ih (c := { c with tickEvent := ⟨w + r.2, true⟩ }) hzero rfl
      fun r' hr' => (hle r' (mem_cons_of_mem _ hr')).trans (Nat.le_add_right w r.2)
    refine ⟨c', ?_, ?_⟩
    · show (c.virtualDeviceRecover r.1 r.2).bind _ = some c'
      rw [hr]
      exact h'
    · rw [hdue', map_cons, sum_cons, Nat.add_assoc]

theorem recoversInParallel_iff {reports : List (Tick × Tick)} (hle : ∀ r ∈ reports, r.1 ≤ w) :
    c.RecoversInParallel w reports ↔ (reports.filter (0 < ·.2)).length ≤ 1 := by
  have hpositive : (reports.filter (0 < ·.2)).length = ((reports.map Prod.snd).filter (0 < ·)).length := by
    rw [List.filter_map, length_map]
    rfl
  rw [hpositive, ← sum_eq_slowest_iff]
  constructor
  · intro h
    obtain ⟨c', hc', hdue'⟩ := h reports (List.Perm.refl _)
    obtain ⟨c'', hc'', hdue''⟩ := recoverAll_adds hzero hdue hle
    cases hc'.symm.trans hc''
    have heq := some.inj (hdue''.symm.trans hdue')
    exact Nat.add_left_cancel heq
  · intro h reports' hperm
    obtain ⟨c', hc', hdue'⟩ := recoverAll_adds hzero hdue fun r hr => hle r (hperm.mem_iff.mp hr)
    refine ⟨c', hc', ?_⟩
    rw [hdue', (hperm.map Prod.snd).sum_eq, h]

end

end AtomicCpu

/-- **When peripheral recovery is parallel.**  In every run, at every POWER_ON, the tick event is due at the CPU's own
    recovery point; the reports that come before it move it by the longest of their delays, in whatever order they
    come, exactly if at most one of the delays is positive. -/
theorem recovery_parallel_iff (p : AtomicCpuParams) {t₀ w₀ : Tick} (h₀ : t₀ ≤ w₀) {as : List CpuAct}
    {s : CpuSys} (h : Run (Guarded (stepOf (CpuSys.step p)) CpuSys.Legal) (.start t₀ w₀) as s)
    (hoff : s.power ≠ .on) (t : Tick) : ∃ s', s.step p (.powerOn t) = some s' ∧
      s'.cpu.tickEvent.due = some (t + p.cycleRestore * p.period) ∧
      ∀ reports, (∀ r ∈ reports, r.1 ≤ t + p.cycleRestore * p.period) →
        (s'.cpu.RecoversInParallel (t + p.cycleRestore * p.period) reports ↔
          (reports.filter (0 < ·.2)).length ≤ 1) := by
  have hnone := (CpuSys.ticking_of_run h₀ h).off hoff
  obtain ⟨c', hc', hdue⟩ := AtomicCpu.handleMsg_powerOn (p := p) (t := t) hnone
  have hs' : s.step p (.powerOn t) = some ⟨c', .on, t⟩ := map_eq_some_iff.mpr ⟨_, hc', rfl⟩
  refine ⟨_, hs', hdue, ?_⟩
  intro reports hle
  exact AtomicCpu.recoversInParallel_iff (CpuSys.recoverTime_step (CpuSys.recoverTime_of_run h) hs') hdue hle

/-- A power cycle and one device that recovers. -/
theorem recovery_parallel_one :
    ∃ s, exec (guardFn (CpuSys.step demoCpu) CpuSys.Legal) (.start 0 100) [.powerOff 96] = some s ∧ s.power ≠ .on ∧
      ∃ s', s.step demoCpu (.powerOn 200) = some s' ∧ s'.cpu.RecoversInParallel 230 [(200, 0), (200, 7)] := by
  refine exec_observe CpuSys.power (.off 4) (by decide +kernel) fun s hs hpower => ?_
  have hoff : s.power ≠ .on := by
    rw [hpower]
    decide
  obtain ⟨s', hs', -, hall⟩ :=
    recovery_parallel_iff demoCpu (by decide) (exec_guardFn_iff.mp hs) hoff 200
  exact ⟨hoff, s', hs', (hall [(200, 0), (200, 7)] (by decide)).mpr (by decide)⟩

/-- **Two devices that report 7 and 5**: the tick event, due at 230, moves to 242. -/
theorem recovery_waits_for_sum :
    (exec (guardFn (CpuSys.step demoCpu) CpuSys.Legal) (.start 0 100) [.powerOff 96, .powerOn 200]).bind
        (fun s => (s.cpu.recoverAll [(200, 7), (200, 5)]).map fun c => (s.cpu.tickEvent.due, c.tickEvent.due)) =
      some (some 230, some 242) ∧ 230 + slowest [7, 5] = 237 := by
  decide +kernel

end NvpSim.Cpu
