/-
  How long does a task run? A meter that only WATCHES the device: it notes when the status byte starts and stops
  to say that a task is running (READY and BUSY), the lengths of the segments in between, and, when the device
  counts a task as completed, the segments of that task.

  If the device is interruptable, `delay_remained` is what was left, and the segments so far plus what is left
  are `delay_self` at any time; if it is not, what is left is always the whole of `delay_self`.
-/
import NvpSim.Vdev.ExactlyOnce

namespace NvpSim.Vdev

open NvpSim.Sim NvpSim.Lib List

/-! ## The meter -/

/-- The status byte says that a task is running. -/
def VirtualDevice.running (d : VirtualDevice) : Bool := d.has .ready && d.has .busy

/-- The start of the segment that is running, the segments of the task before it, and the segments of every task that
    was completed. -/
structure Meter where
  since : Tick
  segments : List Tick
  finished : List (List Tick)

namespace Meter

/-- A segment ends. -/
def stop (m : Meter) (t : Tick) : Meter := { m with segments := m.segments ++ [t - m.since] }

/-- A task is complete. -/
def finish (m : Meter) : Meter := { m with segments := [], finished := m.finished ++ [m.segments] }

/-- What the meter notes when the system goes from `s` to `s'` at `t`. -/
def next (m : Meter) (t : Tick) (s s' : Sys) : Meter :=
  let m := if s.dev.running && !s'.dev.running then m.stop t else m
  let m := if s.completed < s'.completed then m.finish else m
  let m := if s.accepted < s'.accepted then { m with segments := [] } else m
  if !s.dev.running && s'.dev.running then { m with since := t } else m

end Meter

/-- A device in its environment, with the meter. -/
structure Metered where
  sys : Sys
  meter : Meter

namespace Metered

/-- After construction. -/
def boot : Metered := ⟨.boot, ⟨0, [], []⟩⟩

/-- One label; the meter watches. -/
def step (p : VirtualDeviceParams) (m : Metered) (l : Label) : Option Metered :=
  (m.sys.step p l).map fun s => ⟨s, m.meter.next l.tick m.sys s⟩

end Metered

/-- The time of a completed task is right. -/
def OnSchedule (p : VirtualDeviceParams) (segments : List Tick) : Prop :=
  if p.isInterruptable then segments.sum = p.delaySelf else segments.getLast? = some p.delaySelf

/-! ## What is left of a task -/

/-- What is left, if `done` are the segments so far. -/
def Left (p : VirtualDeviceParams) (done : List Tick) (left : Tick) : Prop :=
  if p.isInterruptable then done.sum + left = p.delaySelf else left = p.delaySelf

/-- The meter, the system and its life cycle agree on what is left of the task. -/
structure Timed (p : VirtualDeviceParams) (s : Sys) (a : Lifecycle) (m : Meter) : Prop where
  working : ∀ w, a.phase = .working w → m.since ≤ s.curTick ∧ Left p m.segments (w - m.since)
  waiting : a.phase = .off ∨ (∃ w, a.phase = .initialising w) → 0 < a.delayRemained →
    Left p m.segments a.delayRemained
  finished : ∀ task ∈ m.finished, OnSchedule p task
  count : m.finished.length = s.completed

variable {p : VirtualDeviceParams}

theorem left_start : Left p [] p.delaySelf := by
  unfold Left
  split
  · exact Nat.zero_add _
  · rfl

theorem Left.cut {done : List Tick} {since t w : Tick} (h : Left p done (w - since)) (h₁ : since ≤ t)
    (h₂ : t ≤ w) : Left p (done ++ [t - since]) (if p.isInterruptable then w - t else p.delaySelf) := by
  unfold Left at h ⊢
  split
  · rename_i hint
    rw [if_pos hint] at h
    have htime : ∀ n d since t w : Nat, n + (w - since) = d → since ≤ t → t ≤ w →
        n + (t - since) + (w - t) = d := by omega
    rw [sum_append]
    exact htime _ _ _ _ _ h h₁ h₂
  · rfl

theorem Left.onSchedule {done : List Tick} {since w : Tick} (h : Left p done (w - since)) :
    OnSchedule p (done ++ [w - since]) := by
  unfold Left at h
  unfold OnSchedule
  split
  · rename_i hint
    rw [if_pos hint] at h
    rw [sum_append]
    exact h
  · rename_i hint
    rw [if_neg hint] at h
    rw [getLast?_concat, h]

/-! ## One step -/

/-- A task is running in this phase. -/
def Phase.isWorking : Phase → Bool
  | working _ => true
  | boot | off | raw | initialising _ | idle => false

theorem Simulates.running {s : Sys} {a : Lifecycle} (h : Simulates s a) : s.dev.running = a.phase.isWorking := by
  unfold VirtualDevice.running
  rw [h.dev.ready, h.dev.busy]
  cases a.phase <;> rfl

namespace Meter

variable {m : Meter} {t : Tick} {s s' : Sys}

theorem next_same (hrun : s'.dev.running = s.dev.running) (hcomp : s'.completed = s.completed)
    (hacc : s'.accepted = s.accepted) : m.next t s s' = m := by
  unfold next
  rw [hrun, hcomp, hacc]
  cases s.dev.running <;> simp

/-- What the meter notes, from what has changed. -/
theorem next_eq {r r' : Bool} {d n : Nat} (hrun : s.dev.running = r) (hrun' : s'.dev.running = r')
    (hcomp : s'.completed = s.completed + d) (hacc : s'.accepted = s.accepted + n) : m.next t s s' =
      let m := if r && !r' then m.stop t else m
      let m := if 0 < d then m.finish else m
      let m := if 0 < n then { m with segments := [] } else m
      if !r && r' then { m with since := t } else m := by
  unfold next
  rw [hrun, hrun', hcomp, hacc]
  simp only [Nat.lt_add_right_iff_pos]

end Meter

namespace Timed

variable {s s' : Sys} {a : Lifecycle} {m : Meter} {l : Label}

theorem of_rest (h : Timed p s a m) {a' : Lifecycle} (hwork : a'.phase.isWorking = false)
    (hrest : 0 < a'.delayRemained → a'.phase ≠ .off ∧ ∀ w, a'.phase ≠ .initialising w)
    (hcomp : s'.completed = s.completed) : Timed p s' a' m := by
  refine ⟨?_, ?_, h.finished, h.count.trans hcomp.symm⟩
  · intro w hw
    rw [hw] at hwork
    cases hwork
  · intro hwait hpos
    obtain ⟨hoff, hinit⟩ := hrest hpos
    rcases hwait with hwait | ⟨w, hwait⟩
    · exact absurd hwait hoff
    · exact absurd hwait (hinit w)

variable {t : Tick}

section

variable (h : Timed p s a m) (hsim : Simulates s a)

include h hsim

theorem powerOff (htidy : a.Tidy) (hleg : s.Legal p (.powerOff t))
    (hsim' : Simulates s' (a.next p (.powerOff t))) (hcomp : s'.completed = s.completed)
    (hacc : s'.accepted = s.accepted) : Timed p s' (a.next p (.powerOff t)) (m.next t s s') := by
  have hrun := hsim.running
  have hrun' := hsim'.running
  obtain ⟨φ, nr, dr⟩ := a
  cases φ with
  | off => exact absurd (hsim.power.trans rfl) hleg.2
  | boot | raw =>
    have hzero : dr = 0 := htidy.atRest (by simp)
    rw [Meter.next_same (hrun'.trans hrun.symm) hcomp hacc]
    refine h.of_rest rfl (fun hpos => ?_) hcomp
    rw [hzero] at hpos
    exact absurd hpos (Nat.lt_irrefl 0)
  | idle | initialising w =>
    rw [Meter.next_same (hrun'.trans hrun.symm) hcomp hacc]
    exact h.of_rest rfl (fun hpos => absurd hpos (Nat.lt_irrefl 0)) hcomp
  | working w =>
    rw [Meter.next_eq (d := 0) (n := 0) hrun hrun' hcomp hacc]
    obtain ⟨hsince, hleft⟩ := h.working w rfl
    obtain ⟨hsched, hwhen⟩ := Event.due_eq_some.mp hsim.dev.taskDue
    have htw : t ≤ w := by
      rw [← hwhen]
      exact hleg.1.2.2 hsched
    refine ⟨?_, fun _ _ => hleft.cut (hsince.trans hleg.1.1) htw, h.finished, h.count.trans hcomp.symm⟩
    intro w' hw'
    cases hw'

theorem powerOn (hoff : a.phase = .off) (hsim' : Simulates s' (a.next p (.powerOn t)))
    (hcomp : s'.completed = s.completed) (hacc : s'.accepted = s.accepted) :
    Timed p s' (a.next p (.powerOn t)) (m.next t s s') := by
  have hidle : (a.next p (.powerOn t)).phase.isWorking = false := by
    show (if a.needRecover = true then Phase.initialising (t + p.delaySet) else .raw).isWorking = false
    split <;> rfl
  have hrun : s'.dev.running = s.dev.running := by
    rw [hsim'.running, hsim.running, hidle, hoff]
    rfl
  rw [Meter.next_same hrun hcomp hacc]
  refine ⟨?_, fun _ hpos => h.waiting (Or.inl hoff) hpos, h.finished, h.count.trans hcomp.symm⟩
  intro w hw
  rw [hw] at hidle
  cases hidle

theorem access (htidy : a.Tidy) {pkt : Packet} (hle : s.curTick ≤ t)
    (hsim' : Simulates s' (a.next p (.access t pkt))) (htick : s'.curTick = t)
    (hcomp : s'.completed = s.completed) (hacc : s'.accepted = s.accepted + a.accepts p (.access t pkt)) :
    Timed p s' (a.next p (.access t pkt)) (m.next t s s') := by
  have hrun := hsim.running
  have hrun' := hsim'.running
  rcases Lifecycle.next_access p a t pkt with hsame | ⟨hraw, hcmd, hnew⟩ | ⟨hidle, hcmd, hnew⟩
  · -- nothing is accepted: an ACTIVATE that finds the device idle would change the phase
    have hnone : a.accepts p (.access t pkt) = 0 := by
      refine if_neg fun hact => ?_
      have hphase : (a.next p (.access t pkt)).phase = .working (t + p.delaySelf) := by
        simp [Lifecycle.next, hact.1, hact.2]
      rw [hsame, hact.2] at hphase
      cases hphase
    rw [hnone] at hacc
    rw [hsame] at hrun' ⊢
    rw [Meter.next_same (hrun'.trans hrun.symm) hcomp hacc]
    refine ⟨?_, h.waiting, h.finished, h.count.trans hcomp.symm⟩
    intro w hw
    obtain ⟨hsince, hleft⟩ := h.working w hw
    rw [htick]
    exact ⟨hsince.trans hle, hleft⟩
  · have hnone : a.accepts p (.access t pkt) = 0 := by
      refine if_neg fun hact => ?_
      rw [hcmd] at hact
      cases hact.1
    have hzero : a.delayRemained = 0 := htidy.atRest (Or.inr (Or.inl hraw))
    rw [hnone] at hacc
    rw [hnew] at hrun' ⊢
    rw [hraw] at hrun
    rw [Meter.next_same (hrun'.trans hrun.symm) hcomp hacc]
    refine h.of_rest rfl (fun hpos => ?_) hcomp
    have hpos' : 0 < a.delayRemained := hpos
    rw [hzero] at hpos'
    exact absurd hpos' (Nat.lt_irrefl 0)
  · have hone : a.accepts p (.access t pkt) = 1 := if_pos ⟨hcmd, hidle⟩
    rw [hone] at hacc
    rw [hnew] at hrun' ⊢
    rw [hidle] at hrun
    rw [Meter.next_eq (d := 0) hrun hrun' hcomp hacc]
    refine ⟨?_, ?_, h.finished, h.count.trans hcomp.symm⟩
    · intro w hw
      cases hw
      refine ⟨htick.ge, ?_⟩
      show Left p [] (t + p.delaySelf - t)
      rw [Nat.add_sub_cancel_left]
      exact left_start
    · rintro (hoff | ⟨w, hinit⟩)
      · cases hoff
      · cases hinit

theorem fireInit (hphase : a.phase = .initialising t) (hsim' : Simulates s' (a.next p (.fireInit t)))
    (htick : s'.curTick = t) (hcomp : s'.completed = s.completed) (hacc : s'.accepted = s.accepted) :
    Timed p s' (a.next p (.fireInit t)) (m.next t s s') := by
  have hrun := hsim.running
  have hrun' := hsim'.running
  rw [hphase] at hrun
  rcases Nat.eq_zero_or_pos a.delayRemained with hzero | hpos
  · have hnew : a.next p (.fireInit t) = { a with phase := .idle } := by
      simp [Lifecycle.next, hzero]
    rw [hnew] at hrun' ⊢
    rw [Meter.next_same (hrun'.trans hrun.symm) hcomp hacc]
    exact h.of_rest rfl (fun _ => ⟨fun hoff => (by cases hoff), fun w hw => (by cases hw)⟩) hcomp
  · have hnew : a.next p (.fireInit t) = { a with phase := .working (t + a.delayRemained) } := by
      simp [Lifecycle.next, hpos]
    rw [hnew] at hrun' ⊢
    rw [Meter.next_eq (d := 0) (n := 0) hrun hrun' hcomp hacc]
    refine ⟨?_, ?_, h.finished, h.count.trans hcomp.symm⟩
    · intro w hw
      cases hw
      refine ⟨htick.ge, ?_⟩
      show Left p m.segments (t + a.delayRemained - t)
      rw [Nat.add_sub_cancel_left]
      exact h.waiting (Or.inr ⟨t, hphase⟩) hpos
    · rintro (hoff | ⟨w, hinit⟩)
      · cases hoff
      · cases hinit

theorem fireInterrupt (hphase : a.phase = .working t) (hsim' : Simulates s' (a.next p (.fireInterrupt t)))
    (hcomp : s'.completed = s.completed + 1) (hacc : s'.accepted = s.accepted) :
    Timed p s' (a.next p (.fireInterrupt t)) (m.next t s s') := by
  have hrun := hsim.running
  have hrun' : s'.dev.running = false := hsim'.running
  rw [hphase] at hrun
  rw [Meter.next_eq (n := 0) hrun hrun' hcomp hacc]
  obtain ⟨-, hleft⟩ := h.working t hphase
  refine ⟨?_, ?_, ?_, ?_⟩
  · intro w hw
    cases hw
  · intro _ hpos
    exact absurd hpos (Nat.lt_irrefl 0)
  · exact forall_mem_append.mpr ⟨h.finished, forall_mem_singleton.mpr hleft.onSchedule⟩
  · show (m.finished ++ [_]).length = s'.completed
    rw [length_append, hcomp, h.count]
    rfl

/-- **One step.** -/
theorem step (htidy : a.Tidy) (hleg : s.Legal p l) (hok : s.InitOk p l) (hs : s.step p l = some s') :
    Timed p s' (a.next p l) (m.next l.tick s s') := by
  have hen := hsim.enabled hleg
  obtain ⟨s'', hs'', hsim', htick, hacc, hcomp⟩ := hsim.step hleg hok
  cases hs''.symm.trans hs
  cases l with
  | powerOff t => exact h.powerOff hsim htidy hleg hsim' hcomp hacc
  | powerOn t => exact h.powerOn hsim hen hsim' hcomp hacc
  | access t pkt => exact h.access hsim htidy hleg.1.1 hsim' htick hcomp hacc
  | fireInit t => exact h.fireInit hsim hen hsim' htick hcomp hacc
  | fireInterrupt t => exact h.fireInterrupt hsim hen hsim' hcomp hacc

end

end Timed

/-! ## Runs -/

/-- What holds after the labels `ls`. -/
structure Accounted (p : VirtualDeviceParams) (ls : List Label) (m : Metered) : Prop where
  simulates : Simulates m.sys (ls.foldl (Lifecycle.next p) .boot)
  tidy : (ls.foldl (Lifecycle.next p) .boot).Tidy
  timed : Timed p m.sys (ls.foldl (Lifecycle.next p) .boot) m.meter

theorem accounted_of_run {ls : List Label} {m : Metered}
    (h : Run (Guarded (stepOf (Metered.step p)) fun m l => driven p m.sys l) .boot ls m) : Accounted p ls m := by
  refine h.inv_hist (P := Accounted p) ?_ ?_
  · rintro ls m l m' hinv ⟨hs, hleg, hok⟩
    obtain ⟨s', hs', rfl⟩ := Option.map_eq_some_iff.mp hs
    obtain ⟨s'', hs'', hsim', -⟩ := hinv.simulates.step hleg hok
    cases hs''.symm.trans hs'
    have hfold : (ls ++ [l]).foldl (Lifecycle.next p) .boot =
        (ls.foldl (Lifecycle.next p) .boot).next p l := foldl_append
    refine ⟨?_, ?_, ?_⟩ <;> rw [hfold]
    · exact hsim'
    · exact hinv.tidy.next (hinv.simulates.enabled hleg)
    · exact hinv.timed.step hinv.simulates hinv.tidy hleg hok hs'
  · refine ⟨.boot, ⟨fun _ => rfl, fun _ => rfl⟩, ?_, ?_, ?_, rfl⟩
    · intro w hw
      cases hw
    · intro _ hpos
      exact absurd hpos (Nat.lt_irrefl 0)
    · intro task htask
      cases htask

/-- **The time of every completed task is right**, whatever power failures there were: for an interruptable device its
    running segments add up to `delay_self`, for any other the last one is that long.  The meter has seen every task that
    the device has completed. -/
theorem task_time_accounted (p : VirtualDeviceParams) {ls : List Label} {m : Metered}
    (h : Run (Guarded (stepOf (Metered.step p)) fun m l => driven p m.sys l) .boot ls m) :
    m.meter.finished.length = m.sys.completed ∧ ∀ segments ∈ m.meter.finished,
        (p.isInterruptable = true → segments.sum = p.delaySelf) ∧
          (p.isInterruptable = false → segments.getLast? = some p.delaySelf) := by
  have htimed := (accounted_of_run h).timed
  refine ⟨htimed.count, fun segments hmem => ?_⟩
  have hright := htimed.finished segments hmem
  unfold OnSchedule at hright
  constructor
  · intro hint
    rw [if_pos hint] at hright
    exact hright
  · intro hint
    rw [if_neg (by rw [hint]; decide)] at hright
    exact hright

/-- The demo device with an interruptable task. -/
def interruptableParams : VirtualDeviceParams := { demoParams with isInterruptable := true }

/-- Two power failures: after 3 ticks of the task and after 2 more of them. -/
def twoFailures : List Label :=
  [.powerOff 0, .powerOn 0, .access 1 writeInit, .fireInit 6, .access 7 writeActivate, .powerOff 10,
    .powerOn 20, .fireInit 25, .powerOff 27, .powerOn 30, .fireInit 35, .fireInterrupt 40]

theorem task_time_two_failures :
    ∃ m, exec (guardFn (Metered.step interruptableParams) fun m l => driven interruptableParams m.sys l)
        .boot twoFailures = some m ∧ m.meter.finished = [[3, 2, 5]] ∧ m.meter.finished.length = m.sys.completed := by
  refine exec_observe (fun m => m.meter.finished) [[3, 2, 5]] (by decide +kernel) fun m hm hfinished => ?_
  exact ⟨hfinished, (task_time_accounted interruptableParams (exec_guardFn_iff.mp hm)).1⟩

end NvpSim.Vdev
