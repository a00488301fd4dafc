/-
  `MemChecker` raises no false alarm.

  The value that a read of a linearizable history returns is that of a write with no other write between,
  or the first value (`Linearization.source`).  The invariant of the tracker turns this into exactly what
  `inExpectedData_true` asks for: the write is still in a cluster, since what was pruned is overwritten;
  no known write lies between; and a last observation that lies between has the same value.
-/
import NvpSim.Mem.MemTracker

namespace NvpSim.Mem

open NvpSim.Lib NvpSim.Sim MemEvent List Option

variable {past : List MemEvent} {e : MemEvent}

/-! ## The verdict on a read -/

/-- A read of a history that completes after `past`. -/
structure ReadOf (hist past : List MemEvent) (t : ByteTracker) (s start tick : Nat) (d : Data) :
    Prop where
  wf : WellFormed hist
  sub : ∀ e ∈ past, e ∈ hist
  inv : TrackerInv past t
  started : startRead s start ∈ past
  completed : completeRead s tick d ∈ hist
  ticks : ∀ e ∈ past, e.tick < tick
  tick_le : tick ≤ tickFuture

section Verdict

variable {hist : List MemEvent} {t : ByteTracker} {s start tick : Nat} {d v : Data} {os : List Nat}
  {c : WriteCluster} {l w : Transaction}

section

variable (h : ReadOf hist past t s start tick d)

include h

/-- What was over before the read began precedes it. -/
theorem ReadOf.precedes {s' u : Nat} (hc : Completed hist s' u) (hlt : u < start) : (register hist).precedes s' s :=
  ⟨u, start, hc, Or.inl (h.sub _ h.started), hlt⟩

theorem ReadOf.tick_lt (he : e ∈ past) : e.tick < tickFuture :=
  Nat.lt_of_lt_of_le (h.ticks e he) h.tick_le

section

variable (hc : c ∈ t.writeClusters) (hw : w ∈ c.writes)

include hc hw

theorem ReadOf.genuine : Genuine past w := (h.inv.clusters c hc).genuine w hw

/-- A write that the tracker has as over at the start precedes the read. -/
theorem ReadOf.over (hle : w.complete ≤ start) :
    Completed hist w.serial w.complete ∧ w.complete < start := by
  have hstart : start < tickFuture := h.tick_lt h.started
  have hcomplete := (h.genuine hc hw).completed (by omega)
  refine ⟨Or.inr (h.sub _ hcomplete), Nat.lt_of_le_of_ne hle fun heq => ?_⟩
  cases h.wf.tick_unique (h.sub _ hcomplete) (h.sub _ h.started) heq

/-- A write of the tracker is one of the history. -/
theorem ReadOf.writes : (register hist).writes w.serial w.data :=
  ⟨w.start, h.sub _ (h.genuine hc hw).started⟩

end

/-- **No write precedes the read**: none that the tracker has was over at its start, and what was observed
    before is the initial value or the data of the read. -/
theorem ReadOf.of_first (hos : (register hist).Linearization v os)
    (hnone : ∀ w ∈ os, ∀ d', (register hist).writes w d' → ¬ (register hist).precedes w s)
    (hreads : ∀ l ∈ os, ∀ d', (register hist).reads l d' → (register hist).precedes l s → d' = d)
    (hl : ObservedRead past l) (hl_lt : l.complete < start) :
    (∀ c ∈ t.writeClusters, ∀ w ∈ c.writes, start < w.complete) ∧ (l.complete = tickInitial ∨ l.data = d) := by
  refine ⟨fun c hc w hw => ?_, ?_⟩
  · by_contra hle
    obtain ⟨hcompleted, hlt⟩ := h.over hc hw (Nat.le_of_not_lt hle)
    exact hnone w.serial (hos.all _ ⟨_, hcompleted⟩) w.data (h.writes hc hw) (h.precedes hcompleted hlt)
  · rcases hl with ⟨-, hzero⟩ | ⟨-, hc⟩
    · exact Or.inl hzero
    · have hcompleted : Completed hist l.serial l.complete := Or.inl ⟨_, h.sub _ hc⟩
      exact Or.inr (hreads l.serial (hos.all _ ⟨_, hcompleted⟩) l.data ⟨_, h.sub _ hc⟩ (h.precedes hcompleted hl_lt))

/-- **The tracker knows the write that the read returns**: no other write came in between, and what was
    observed since has its data. -/
theorem ReadOf.of_known {x : Transaction} (hos : (register hist).Linearization v os)
    (hc : c ∈ t.writeClusters) (hx : x ∈ c.writes) (hbetween : ∀ w' ∈ os, ∀ d', (register hist).writes w' d' →
      (register hist).precedes x.serial w' → ¬ (register hist).precedes w' s)
    (hreads : ∀ l ∈ os, ∀ d', (register hist).reads l d' → (register hist).precedes x.serial l →
      (register hist).precedes l s → d' = d) (hl : ObservedRead past l) (hl_lt : l.complete < start) :
    (∀ c' ∈ t.writeClusters, ∀ w' ∈ c'.writes, x.complete < w'.start → start < w'.complete) ∧
      (x.complete < l.start → l.data = d) := by
  -- what begins after the end of `x` has `x` before it
  have hafter : ∀ {s' u}, Started hist s' u → u < tickFuture → x.complete < u →
      (register hist).precedes x.serial s' := fun {s' u} hs' hu hlt =>
    ⟨x.complete, u, Or.inr (h.sub _ ((h.genuine hc hx).completed (by omega))), hs', hlt⟩
  refine ⟨fun c' hc' w' hw' hlt => ?_, fun hlt => ?_⟩
  · by_contra hle
    obtain ⟨hcompleted, hlt'⟩ := h.over hc' hw' (Nat.le_of_not_lt hle)
    have hstarted := (h.genuine hc' hw').started
    exact hbetween w'.serial (hos.all _ ⟨_, hcompleted⟩) w'.data (h.writes hc' hw')
      (hafter (Or.inr ⟨_, h.sub _ hstarted⟩) (h.tick_lt hstarted) hlt) (h.precedes hcompleted hlt')
  · rcases hl with ⟨hzero, -⟩ | ⟨hs', hc'⟩
    · rw [hzero] at hlt
      exact absurd hlt (Nat.not_lt_zero _)
    · have hcompleted : Completed hist l.serial l.complete := Or.inl ⟨_, h.sub _ hc'⟩
      exact hreads l.serial (hos.all _ ⟨_, hcompleted⟩) l.data ⟨_, h.sub _ hc'⟩
        (hafter (Or.inl (h.sub _ hs')) (h.tick_lt hs') hlt) (h.precedes hcompleted hl_lt)

/-- The write that a read returns has not been pruned. -/
theorem ReadOf.source_known (hpast : ∀ e ∈ hist, e.tick < tick → e ∈ past)
    (hos : (register hist).Linearization v os) {x a : Nat} (hx : x ∈ os) (hx' : startWrite x a d ∈ hist)
    (hnot : ¬ (register hist).precedes s x) (hbetween : ∀ w' ∈ os, ∀ d', (register hist).writes w' d' →
      (register hist).precedes x w' → ¬ (register hist).precedes w' s)
    (hreads : ∃ r ∈ t.outstandingReads, r.start = start) :
    ∃ c ∈ t.writeClusters, ∃ w ∈ c.writes, w.serial = x ∧ w.data = d := by
  -- it started before the read completed
  have ha_lt : a < tick := by
    rcases Nat.lt_trichotomy a tick with hlt | heq | hgt
    · exact hlt
    · cases h.wf.tick_unique hx' h.completed heq
    · exact absurd ⟨tick, a, Or.inl ⟨d, h.completed⟩, Or.inr ⟨d, hx'⟩, hgt⟩ hnot
  rcases h.inv.known x a d (hpast _ hx' ha_lt) with ⟨b, hb⟩ | ⟨c, hc, w, hw, rfl⟩ |
    ⟨u, s', a', d', u', hu, hs', hu', hlt, hall⟩
  · exact absurd (h.sub _ hb) (h.wf.may_not_aborted (hos.only x hx) hx')
  · exact ⟨c, hc, w, hw, rfl, (h.wf.startWrite_unique (h.sub _ (h.genuine hc hw).started) hx').2⟩
  · -- it was pruned: then another write lies between
    obtain ⟨r, hr, rfl⟩ := hreads
    have hcompleted : Completed hist s' u' := Or.inr (h.sub _ hu')
    refine absurd (h.precedes hcompleted (hall r hr)) ?_
    exact hbetween s' (hos.all _ ⟨_, hcompleted⟩) d' ⟨a', h.sub _ hs'⟩
      ⟨u, a', Or.inr (h.sub _ hu), Or.inr ⟨d', h.sub _ hs'⟩, hlt⟩

end

/-- An observation ends no earlier than it began. -/
theorem ObservedRead.span (hl : ObservedRead past l) (h : ReadOf hist past t s start tick d) :
    (l.complete = tickInitial → l.start = tickInitial) ∧ l.start ≤ l.complete := by
  rcases hl with ⟨hstart, hzero⟩ | ⟨hs', hc⟩
  · exact ⟨fun _ => hstart, Nat.le_of_eq (hstart.trans hzero.symm)⟩
  · obtain ⟨t₀, hlt, hs₀⟩ := h.wf.read_started (h.sub _ hc)
    rw [h.wf.startRead_unique (h.sub _ hs') hs₀]
    refine ⟨fun hzero => ?_, Nat.le_of_lt hlt⟩
    rw [hzero] at hlt
    exact absurd hlt (Nat.not_lt_zero _)

/-- **A read of a linearizable history is not refused.** -/
theorem ReadOf.inExpectedData {iter : List Transaction → List Transaction}
    (hiter : ∀ l, (iter l).Perm l) (h : ReadOf hist past t s start tick d)
    (hpast : ∀ e ∈ hist, e.tick < tick → e ∈ past) (hlin : LinearizableHistory hist)
    (hr : ∃ r ∈ t.outstandingReads, r.start = start) :
    ∃ expected, t.inExpectedData iter start tick d = some (true, expected) := by
  obtain ⟨v, os, hos⟩ := hlin
  obtain ⟨b, hb, hb_lt⟩ := h.inv.oldest
  obtain ⟨l, hl_mem, hl, hl_lt⟩ : ∃ x ∈ t.readObservations,
      (downTo (·.complete) start t.readObservations).getLast? = some x ∧ x.complete < start := by
    obtain ⟨r, hr, rfl⟩ := hr
    exact lastCompleted_of (P := (· < r.start)) hb (hb_lt r hr) fun _ hlt => hlt
  have hl_obs := h.inv.observed l hl_mem
  obtain ⟨hinit, hspan⟩ := hl_obs.span h
  refine ByteTracker.inExpectedData_true hiter hl (Nat.le_of_lt hl_lt) hinit hspan h.inv.apart ?_ ?_ ?_
  · intro first hfirst
    obtain ⟨e', he', heq⟩ := h.inv.began first (mem_of_getLast? hfirst)
    exact heq ▸ h.ticks e' he'
  · intro last hlast hall
    have hinv := h.inv.clusters last (mem_of_mem_head? hlast)
    by_cases hopen : last.complete = tickFuture
    · rw [hopen]
      exact h.tick_lt h.started
    · obtain ⟨w, hw⟩ := exists_mem_of_ne_nil _ (hinv.closed hopen).1
      exact Nat.lt_of_lt_of_le (hall w hw) (hinv.over hopen w hw).2
  · have hself : s ∈ os := hos.all _ ⟨tick, Or.inl ⟨d, h.completed⟩⟩
    rcases hos.source h.wf.proper hself ⟨tick, h.completed⟩ with
      ⟨x, hx, ⟨a, hx'⟩, hnot, hbetween, hreads⟩ | ⟨hnone, hreads⟩
    · obtain ⟨c, hc, w, hw, rfl, hdata⟩ := h.source_known hpast hos hx hx' hnot hbetween hr
      obtain ⟨hno, hobs⟩ := h.of_known hos hc hw hbetween hreads hl_obs hl_lt
      exact Or.inl ⟨c, hc, w, hw, hdata, hno, hobs⟩
    · exact Or.inr (h.of_first hos hnone hreads hl_obs hl_lt)

end Verdict

/-! ## No false alarm -/

section NoFalseAlarm

variable {iter : List Transaction → List Transaction} {now : Nat → Nat} {rest : List MemEvent}

/-- **One call** of a linearizable history raises no alarm. -/
theorem checkRun_step (hiter : ∀ l, (iter l).Perm l) (hnow : ∀ t, now t ≤ maxTick)
    (hwf : WellFormed (past ++ e :: rest))
    (hlin : LinearizableHistory (past ++ e :: rest)) {s : CheckRun} (h : TrackerInv past s.tracker)
    (hres : ∀ b ∈ s.results, b = true) : ∃ s', s.step iter now e = some s' ∧ (∀ b ∈ s'.results, b = true) ∧
      (e.tick < tickFuture → TrackerInv (past ++ [e]) s'.tracker) := by
  have ha := hwf.allowed
  cases e with
  | startRead serial tick => exact ⟨_, rfl, hres, fun _ => h.startRead ha⟩
  | startWrite serial tick data =>
    obtain ⟨t', ht', hinv⟩ := h.startWrite ha
    exact ⟨⟨t', s.results⟩, by rw [CheckRun.step, ht']; rfl, hres, fun _ => hinv⟩
  | completeWrite serial tick =>
    obtain ⟨t', ht', hinv⟩ := h.completeWrite ha (hnow tick)
    exact ⟨⟨t', s.results⟩, by rw [CheckRun.step, ht']; rfl, hres, hinv⟩
  | abortWrite serial tick =>
    obtain ⟨t', ht', hinv⟩ := h.abortWrite ha
    exact ⟨⟨t', s.results⟩, by rw [CheckRun.step, ht']; rfl, hres, fun _ => hinv⟩
  | completeRead serial tick data =>
    obtain ⟨hticks, -, hmax, hreading⟩ := id ha
    obtain ⟨r, hr, hrs, hfind⟩ := h.tracked.find_read hreading
    have hread : ReadOf (past ++ .completeRead serial tick data :: rest) past s.tracker serial r.start tick
        data := ⟨hwf, fun e he => mem_append_left _ he, h, hrs ▸ h.reads r hr, by simp, hticks, hmax⟩
    obtain ⟨expected, hexpected⟩ := hread.inExpectedData hiter (fun e he hlt => hwf.mem_past he hlt) hlin ⟨r, hr, rfl⟩
    have hinv := h.completeRead tick data hr hrs expected
    obtain ⟨t', ht'⟩ :=
      isSome_iff_exists.mp (pruneTransactions_isSome hinv.tracked.observations_ne (now tick))
    refine ⟨⟨t', s.results ++ [true]⟩, ?_, fun b hb => ?_, fun hlt => ?_⟩
    · unfold CheckRun.step ByteTracker.completeRead
      dsimp only
      rw [hfind]
      show Option.map _ ((s.tracker.inExpectedData iter r.start tick data).bind _) = _
      rw [hexpected, bind_some]
      rw [ht']
      rfl
    · rcases mem_append.mp hb with hb | hb
      · exact hres b hb
      · exact mem_singleton.mp hb
    · obtain ⟨t'', ht'', hinv'⟩ := hinv.prune (ha.tick_lt hlt) (hnow tick)
      cases ht'.symm.trans ht''
      exact hinv'

/-- **No false alarm.**  For every well-formed history of one byte that is linearizable, every call goes
    through without a failed assertion and every `completeRead` returns true, in whatever order the hash
    maps are iterated and at whatever ticks the tracker prunes. -/
theorem no_false_alarm (hiter : ∀ l, (iter l).Perm l) (hnow : ∀ t, now t ≤ maxTick)
    {hist : List MemEvent} (hwf : WellFormed hist) (hlin : LinearizableHistory hist) :
    ∃ s, exec (CheckRun.step iter now) .start hist = some s ∧ ∀ b ∈ s.results, b = true := by
  -- after every part of the history, as long as it is not the last tick
  have hpart : ∀ past, past <+: hist → ∃ s, exec (CheckRun.step iter now) .start past = some s ∧
      (∀ b ∈ s.results, b = true) ∧ ((∀ e ∈ past, e.tick < tickFuture) → TrackerInv past s.tracker) := by
    intro past
    induction past using List.reverseRecOn with
    | nil =>
      exact fun _ => ⟨.start, rfl, nofun, fun _ => trackerInv_init⟩
    | append_singleton past e ih =>
      rintro ⟨rest, rfl⟩
      rw [append_assoc] at hwf hlin ih
      have ha := hwf.allowed
      obtain ⟨s, hs, hres, hinv⟩ := ih (prefix_append _ _)
      have hinv' := hinv fun e' he' => Nat.lt_of_lt_of_le (ha.1 e' he') ha.2.2.1
      obtain ⟨s', hs', hres', hinv''⟩ := checkRun_step hiter hnow hwf hlin hinv' hres
      refine ⟨s', ?_, hres', fun hticks => hinv'' (hticks e (by simp))⟩
      rw [exec_append, hs]
      show (CheckRun.step iter now s e).bind _ = some s'
      rw [hs']
      rfl
  obtain ⟨s, hs, hres, -⟩ := hpart hist (prefix_refl _)
  exact ⟨s, hs, hres⟩

/-- A write, a read that overlaps it and returns the first value, a write that is aborted, and a read of
    the first write. -/
def someHistory : List MemEvent :=
  [.startWrite 0 1 7, .startRead 1 2, .completeRead 1 3 9, .completeWrite 0 4, .startWrite 2 5 8,
    .abortWrite 2 6, .startRead 3 7, .completeRead 3 8 7]

theorem someHistory_wellFormed : WellFormed someHistory := by
  simp [WellFormed, WellFormedFrom, someHistory, Allowed, Reading, Writing, MemEvent.tick, MemEvent.serial, maxTick]

theorem someHistory_linearizable : LinearizableHistory someHistory := by
  refine ⟨9, [1, 0, 3], by decide, fun o ho => ?_, fun o ho => ?_, ?_, ?_⟩
  · obtain ⟨t, ⟨d, ht⟩ | ht⟩ := ho
    · simp only [someHistory, mem_cons, completeRead.injEq, reduceCtorEq, false_or, not_mem_nil, or_false] at ht
      rcases ht with ⟨rfl, -⟩ | ⟨rfl, -⟩ <;> decide
    · simp only [someHistory, mem_cons, completeWrite.injEq, reduceCtorEq, false_or, not_mem_nil, or_false] at ht
      rw [ht.1]
      decide
  · simp only [mem_cons, not_mem_nil, or_false] at ho
    rcases ho with rfl | rfl | rfl
    · exact Or.inl ⟨3, Or.inl ⟨9, by decide⟩⟩
    · exact Or.inl ⟨4, Or.inr (by decide)⟩
    · exact Or.inl ⟨8, Or.inl ⟨7, by decide⟩⟩
  · simp [register, Completed, Started, someHistory]
  · exact .read ⟨3, by decide⟩ (.write (d := 7) ⟨1, by decide⟩ (.read ⟨8, by decide⟩ (.nil _)))

/-- Both of its reads are accepted. -/
theorem no_false_alarm_overlapping : ∃ s, exec (CheckRun.step id fun t => min t maxTick) .start someHistory = some s ∧
      s.results = [true, true] := by
  obtain ⟨s, hs, hres⟩ := no_false_alarm (fun l => List.Perm.refl (id l))
    (fun t => Nat.min_le_right t maxTick) someHistory_wellFormed someHistory_linearizable
  have hlen : (exec (CheckRun.step id fun t => min t maxTick) .start someHistory).map
      (·.results.length) = some 2 := by decide +kernel
  rw [hs] at hlen
  obtain ⟨a, b, hab⟩ := length_eq_two.mp (Option.some.inj hlen)
  refine ⟨s, hs, ?_⟩
  rw [hab] at hres ⊢
  rw [hres a (by simp), hres b (by simp)]

end NoFalseAlarm

end NvpSim.Mem
