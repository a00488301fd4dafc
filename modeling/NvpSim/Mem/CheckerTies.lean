/-
  The assertions of the `MemChecker`, when several calls may share a tick.

  Histories are those of `MemHistory`, except that the ticks need not INCREASE (`InOrder`).  A read that found
  neither a valid observation nor a write that was over in time must overlap all clusters: `inExpectedData`
  insists that the oldest cluster started BEFORE the read completed, and a write may well have started at that
  very tick.
-/
import NvpSim.Mem.MemTracker

namespace NvpSim.Mem

open NvpSim.Lib NvpSim.Sim MemEvent List Option

/-! ## What the scan leaves -/

namespace ByteTracker

variable {iter : List Transaction → List Transaction} {lastObs : Transaction} {start : Nat} {data : Data}
  {s s' : Scan} {v : Bool}

/-- An observation that was valid is given up for a write that was over in time. -/
def Explained (v : Bool) (s : Scan) : Prop :=
  s.lastObsValid = false → v = false ∨ (s.wcOverlap = false ∧ s.expected ≠ [])

theorem Explained.scanWrites {ws : List Transaction} (hs : Explained v s)
    (h : scanWrites lastObs start data s ws = .ok s') : Explained v s' := by
  induction ws generalizing s with
  | nil => cases h; exact hs
  | cons w ws ih =>
    rw [ByteTracker.scanWrites] at h
    cases hturn : scanWrite lastObs start data s w with
    | error expected => rw [hturn] at h; cases h
    | ok s₁ =>
      rw [hturn] at h
      refine ih ?_ h
      unfold scanWrite at hturn
      split at hturn
      · cases hturn
        exact hs
      split at hturn
      · cases hturn
      split at hturn
      · cases hturn
        exact fun hf => (hs hf).imp_right fun ⟨hwc, _⟩ => ⟨hwc, by simp⟩
      · cases hturn
        exact fun _ => Or.inr ⟨rfl, by simp⟩

theorem Explained.scanClusters {cs : List WriteCluster} (hs : Explained v s)
    (h : scanClusters iter lastObs start data s cs = .ok s') : Explained v s' := by
  induction cs generalizing s with
  | nil => cases h; exact hs
  | cons c cs ih =>
    rw [ByteTracker.scanClusters] at h
    split at h
    · cases hscan : ByteTracker.scanWrites lastObs start data s (iter c.writes) with
      | error expected => rw [hscan] at h; cases h
      | ok s₁ =>
        rw [hscan] at h
        exact ih (hs.scanWrites hscan) h
    · cases h
      exact hs

def getIncompleteWriteCluster (t : ByteTracker) : WriteCluster :=
  match t.writeClusters with
  | [] => .fresh
  | back :: _ => if back.isComplete then .fresh else back

/-- The operation that a call ends is found. -/
def Located (t : ByteTracker) : MemEvent → Prop
  | .completeRead s _ _ => t.outstandingReads.any (·.serial == s) = true
  | .completeWrite s _ | .abortWrite s _ => t.getIncompleteWriteCluster.writes.any (·.serial == s) = true
  | .startRead _ _ | .startWrite _ _ _ => True

/-- A read does not complete at the tick at which the oldest cluster started. -/
def NoTie (t : ByteTracker) : MemEvent → Prop
  | .completeRead _ tick _ => ∀ c ∈ t.writeClusters.getLast?, c.start ≠ tick
  | _ => True

end ByteTracker

/-! ## Histories -/

/-- What may happen after `past`, at the same tick or later. -/
def InOrder (past : List MemEvent) (e : MemEvent) : Prop :=
  (∀ e' ∈ past, e'.tick ≤ e.tick) ∧ e.tick < tickFuture ∧
    match e with
    | startRead s _ | startWrite s _ _ => ∀ e' ∈ past, e'.serial < s
    | completeRead s _ _ => Reading past s
    | completeWrite s _ | abortWrite s _ => Writing past s

/-- One call, with the calls so far. -/
def CheckRun.stepPast (iter : List Transaction → List Transaction) (now : Nat → Nat)
    (q : CheckRun × List MemEvent) (e : MemEvent) : Option (CheckRun × List MemEvent) :=
  (q.1.step iter now e).map (·, q.2 ++ [e])

/-- **What the checker copes with**: the call is in order, and there is no tie. -/
def CheckRun.TieFree (q : CheckRun × List MemEvent) (e : MemEvent) : Prop :=
  InOrder q.2 e ∧ q.1.tracker.NoTie e

section Ties

variable {iter : List Transaction → List Transaction} {now : Nat → Nat} {past : List MemEvent}
  {e : MemEvent} {t : ByteTracker} {tick : Nat} {d : Data} {r : Transaction}

/-- **The check of a read fails no assertion** unless there is a tie. -/
theorem Tracked.inExpectedData (hiter : ∀ l, (iter l).Perm l) (h : Tracked (· ≤ ·) past t)
    (hspan : ∀ l ∈ t.readObservations, l.start ≤ l.complete) (hr : r ∈ t.outstandingReads)
    (hmax : r.start < tickFuture) (hticks : ∀ e ∈ past, e.tick ≤ tick)
    (htie : ∀ c ∈ t.writeClusters.getLast?, c.start ≠ tick) :
    (t.inExpectedData iter r.start tick d).isSome = true := by
  obtain ⟨b, hb, hb_le⟩ := h.oldest
  obtain ⟨l, hl, hlast, hl_le⟩ := lastCompleted_of (P := (· ≤ r.start)) hb (hb_le r hr) fun _ hlt => Nat.le_of_lt hlt
  unfold ByteTracker.inExpectedData
  rw [lastCompletedTransaction, hlast, bind_some]
  cases hscan : ByteTracker.scanClusters iter l r.start d ⟨l.complete != tickInitial, true, []⟩ t.writeClusters with
  | error expected => rfl
  | ok s =>
    have hwhy : ByteTracker.Explained (l.complete != tickInitial) s :=
      ByteTracker.Explained.scanClusters (fun hf => Or.inl hf) hscan
    have hover := (ByteTracker.scanClusters_spec hiter rfl hscan).1
    dsimp only
    unfold ByteTracker.otherSources
    by_cases hv : s.lastObsValid = true
    · rw [if_pos hv, if_neg (Nat.not_lt_of_le hl_le)]
      split <;> rfl
    rw [if_neg hv]
    have hinit := hwhy (Bool.eq_false_iff.mpr hv)
    split
    · rename_i first last hfirst hnewest hwc
      have hzero : l.complete = tickInitial := by
        simpa [hwc] using hinit
      have hlt : first.start < tick := by
        obtain ⟨e', he', heq⟩ := h.began first (mem_of_getLast? hfirst)
        have hle := hticks e' he'
        have hne := htie first hfirst
        omega
      -- a closed cluster has a write, which the scan has not ignored
      have hlast : r.start < last.complete := by
        have hmem := mem_of_mem_head? hnewest
        have hinv := h.clusters last hmem
        by_cases hopen : last.complete = tickFuture
        · rw [hopen]
          exact hmax
        · obtain ⟨w, hw⟩ := exists_mem_of_ne_nil _ (hinv.closed hopen).1
          have hn : ¬ Ignored l w := by
            have := hspan l hl
            unfold Ignored
            rw [hzero, tickInitial] at this
            omega
          exact Nat.lt_of_lt_of_le (hover hwc last hmem w hw hn).2 (hinv.over hopen w hw).2
      rw [if_pos ⟨hlt, hlast⟩]
      rfl
    · split
      · rename_i hempty
        rw [if_pos]
        · rfl
        · simpa [List.isEmpty_iff.mp hempty] using hinit
      · rfl

/-- What the steps keep: what is known, and that reads complete after they start. -/
def CheckRun.Kept (q : CheckRun × List MemEvent) : Prop :=
  Tracked (· ≤ ·) q.2 q.1.tracker ∧ ∀ l ∈ q.1.tracker.readObservations, l.start ≤ l.complete

/-- **One call** without a tie: what it ends is found, no assertion fails, and what is known is kept. -/
theorem CheckRun.Kept.step (hiter : ∀ l, (iter l).Perm l) {q : CheckRun × List MemEvent} (h : CheckRun.Kept q)
    (he : CheckRun.TieFree q e) :
    q.1.tracker.Located e ∧ ∃ s', q.1.step iter now e = some s' ∧ CheckRun.Kept (s', q.2 ++ [e]) := by
  obtain ⟨s, past⟩ := q
  obtain ⟨hT, hspan⟩ := h
  obtain ⟨⟨hticks, hmax, hlive⟩, htie⟩ := he
  have hcluster : ∀ {serial : Nat}, Writing past serial →
      s.tracker.getIncompleteWriteCluster.writes.any (·.serial == serial) = true := by
    intro serial hout
    obtain ⟨c, rest, w, hcs, hopen, hw, rfl⟩ := hT.writing hout
    rw [ByteTracker.getIncompleteWriteCluster, hcs]
    dsimp only
    rw [if_neg (by simp [WriteCluster.isComplete, hopen])]
    exact List.any_eq_true.mpr ⟨w, hw, beq_self_eq_true _⟩
  cases e with
  | startRead serial tick => exact ⟨trivial, _, rfl, hT.startRead hticks (Nat.zero_le _) hlive, hspan⟩
  | startWrite serial tick data =>
    replace hticks : ∀ e' ∈ past, e'.tick ≤ tick := hticks
    obtain ⟨c, c', rest, ht, hT', -, -⟩ := hT.startWrite (d := data) hticks hlive
    exact ⟨trivial, ⟨_, s.results⟩, by rw [CheckRun.step, ht]; rfl, hT', hspan⟩
  | completeWrite serial tick =>
    replace hmax : tick < tickFuture := hmax
    obtain ⟨c, c', rest, hcs, hupdate, hinv, hbegan, -, hserials⟩ := hT.completed_cluster hlive hmax
    obtain ⟨hprune, hT'⟩ := (hT.endWrite hcs rfl hinv hbegan fun w hw => Or.inr (hserials w hw)).prune between_le
      (now tick)
    refine ⟨hcluster hlive, ⟨_, s.results⟩, ?_, hT', fun l hl => hspan l (mem_of_mem_downTo hl)⟩
    rw [CheckRun.step, ByteTracker.completeWrite, hupdate, bind_some, hprune]
    rfl
  | abortWrite serial tick =>
    obtain ⟨c, c', rest, hcs, ht, hinv, hbegan, -, hserials⟩ := hT.aborted_cluster hlive tick
    exact ⟨hcluster hlive, ⟨_, s.results⟩, by rw [CheckRun.step, ht]; rfl,
      hT.endWrite hcs rfl hinv hbegan hserials, hspan⟩
  | completeRead serial tick data =>
    replace hticks : ∀ e' ∈ past, e'.tick ≤ tick := hticks
    obtain ⟨r, hr, hrs, hfind⟩ := hT.find_read hlive
    refine ⟨List.any_eq_true.mpr ⟨r, hr, by simp [hrs]⟩, ?_⟩
    have hstart : r.start ≤ tick := hticks _ (hT.reads r hr)
    obtain ⟨⟨result, expected⟩, hcheck⟩ := isSome_iff_exists.mp
      (hT.inExpectedData (d := data) hiter hspan hr (Nat.lt_of_le_of_lt hstart hmax) hticks htie)
    obtain ⟨hprune, hT'⟩ := (hT.completeRead serial tick data r expected).prune between_le (now tick)
    refine ⟨⟨_, s.results ++ [result]⟩, ?_, hT', fun l hl => ?_⟩
    · unfold CheckRun.step ByteTracker.completeRead
      dsimp only
      rw [hfind]
      show Option.map _ ((s.tracker.inExpectedData iter r.start tick data).bind _) = _
      rw [hcheck]
      rfl
    · rcases mem_cons.mp (mem_of_mem_downTo hl) with rfl | hl
      · exact hstart
      · exact hspan l hl

/-- **The checker's own assertions.**  In every run whose reads do not complete at the tick at which the
    oldest cluster of writes started, the next call of that kind fails no assertion and finds the
    operation it ends. -/
theorem checker_assertions_hold (hiter : ∀ l, (iter l).Perm l) {es : List MemEvent} {q : CheckRun × List MemEvent}
    (hrun : Run (Guarded (stepOf (CheckRun.stepPast iter now)) CheckRun.TieFree) (.start, []) es q)
    (he : CheckRun.TieFree q e) : q.1.tracker.Located e ∧ (q.1.step iter now e).isSome = true := by
  have hkept : CheckRun.Kept q := by
    refine Run.inv (P := CheckRun.Kept) (fun q e q' h hs => ?_) hrun ⟨tracked_init, fun l hl => ?_⟩
    · obtain ⟨-, s', hs', hkept⟩ := h.step hiter hs.2
      have hq := hs.1
      unfold stepOf CheckRun.stepPast at hq
      rw [hs'] at hq
      cases hq
      exact hkept
    · rw [mem_singleton.mp hl]
  obtain ⟨hloc, s', hs', -⟩ := hkept.step hiter he
  exact ⟨hloc, by rw [hs']; rfl⟩

/-- A write and a read start at one tick, and the read completes later. -/
theorem checker_assertions_hold_tied : ∃ q : CheckRun × List MemEvent,
    Run (Guarded (stepOf (CheckRun.stepPast id id)) CheckRun.TieFree) (.start, [])
      ([] ++ [.startWrite 1 5 7] ++ [.startRead 2 5]) q ∧ q.1.tracker.Located (.completeRead 2 6 9) ∧
      (q.1.step id id (.completeRead 2 6 9)).isSome = true := by
  have hwrite : InOrder [] (.startWrite 1 5 7) := ⟨by simp, by decide, by simp⟩
  have hread : InOrder [.startWrite 1 5 7] (.startRead 2 5) :=
    ⟨by simp [MemEvent.tick], by decide, by simp [MemEvent.serial]⟩
  have hend : InOrder [.startWrite 1 5 7, .startRead 2 5] (.completeRead 2 6 9) :=
    ⟨by simp [MemEvent.tick], by decide, ⟨5, by simp⟩, by simp⟩
  have hrun : Run (Guarded (stepOf (CheckRun.stepPast id id)) CheckRun.TieFree) (.start, []) _ _ :=
    Run.nil.snoc ⟨(rfl : CheckRun.stepPast id id (.start, []) (.startWrite 1 5 7) = some _), hwrite, trivial⟩
  have hrun := hrun.snoc ⟨(rfl : CheckRun.stepPast id id _ (.startRead 2 5) = some _), hread, trivial⟩
  refine ⟨_, hrun, checker_assertions_hold (fun _ => List.Perm.refl _) hrun ⟨hend, fun c hc => ?_⟩⟩
  cases hc
  decide

/-- A write starts at the tick at which a read of something else completes. -/
theorem checker_assertion_fails_at_tie :
    (exec (CheckRun.step id id) .start [.startRead 1 5, .startWrite 2 10 7]).isSome = true ∧
      exec (CheckRun.step id id) .start [.startRead 1 5, .startWrite 2 10 7, .completeRead 1 10 0] = none ∧
      InOrder [.startRead 1 5, .startWrite 2 10 7] (.completeRead 1 10 0) := by
  refine ⟨rfl, rfl, ?_, by decide, ⟨5, by simp⟩, by simp⟩
  simp [MemEvent.tick]

end Ties

end NvpSim.Mem
