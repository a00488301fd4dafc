/-
  What a `ByteTracker` knows after a history.

  `TrackerInv past t` relates a tracker to the calls made so far: its transactions are genuine, the writes of a
  newer cluster began after those of an older one were over, and a write that was neither aborted nor is in a
  cluster any more is OVERWRITTEN by one that was over before every outstanding read began.  Nothing has to be
  known of the observations that were pruned: the last observation is only used to ACCEPT values, so that it is
  enough that those which are left are genuine.
-/
import Mathlib.Data.List.Induction
import Mathlib.Data.List.Nodup
import NvpSim.Mem.MemHistory
import NvpSim.Mem.MemVerdict

namespace NvpSim.Mem

open NvpSim.Lib NvpSim.Sim MemEvent List

variable {past : List MemEvent} {e : MemEvent}

/-! ## Clusters -/

/-- What is known of a write: when it started, and that it completed or is outstanding. -/
structure Genuine (past : List MemEvent) (w : Transaction) : Prop where
  started : startWrite w.serial w.start w.data ∈ past
  ended : completeWrite w.serial w.complete ∈ past ∨ (w.complete = tickFuture ∧ Writing past w.serial)

/-- **The invariant of a cluster.** -/
structure ClusterInv (past : List MemEvent) (c : WriteCluster) : Prop where
  genuine : ∀ w ∈ c.writes, Genuine past w
  nodup : (c.writes.map (·.serial)).Nodup
  count : c.numIncomplete = c.writes.countP (·.complete = tickFuture)
  le_max : ∀ w ∈ c.writes, w.complete ≠ tickFuture → w.complete ≤ c.completeMax
  max_mem : c.completeMax = tickInitial ∨ ∃ w ∈ c.writes, w.complete ≠ tickFuture ∧ w.complete = c.completeMax
  closed : c.complete ≠ tickFuture → c.writes ≠ [] ∧ c.numIncomplete = 0 ∧ c.complete = c.completeMax
  isOpen : c.complete = tickFuture → c.numIncomplete = 0 → c.writes = []

theorem clusterInv_fresh : ClusterInv past .fresh where
  genuine := nofun
  nodup := nodup_nil
  count := rfl
  le_max := nofun
  max_mem := Or.inl rfl
  closed := fun h => absurd rfl h
  isOpen := fun _ _ => rfl

variable {c : WriteCluster} {w : Transaction} {t : ByteTracker} {pre post : List Transaction} {before curTick : Nat}

/-- In a closed cluster every write is over, and not after the cluster. -/
theorem ClusterInv.over (h : ClusterInv past c) (hc : c.complete ≠ tickFuture) :
    ∀ w ∈ c.writes, w.complete ≠ tickFuture ∧ w.complete ≤ c.complete := by
  obtain ⟨-, hzero, heq⟩ := h.closed hc
  intro w hw
  have hne : w.complete ≠ tickFuture := by
    have hcount := h.count
    rw [hzero, eq_comm, countP_eq_zero] at hcount
    simpa using hcount w hw
  exact ⟨hne, heq ▸ h.le_max w hw hne⟩

/-- The call ends a write. -/
def EndsWrite (e : MemEvent) (s : Nat) : Prop := ∃ t, e = completeWrite s t ∨ e = abortWrite s t

/-- A call that does not end the write leaves its record right. -/
theorem Genuine.snoc (h : Genuine past w) (he : w.complete = tickFuture → ¬ EndsWrite e w.serial) :
    Genuine (past ++ [e]) w := by
  refine ⟨mem_append_left _ h.started, h.ended.imp (mem_append_left _) ?_⟩
  rintro ⟨hf, ⟨t, d, hs⟩, hc, ha⟩
  refine ⟨hf, ⟨t, d, mem_append_left _ hs⟩, fun t' hin => ?_, fun t' hin => ?_⟩
  · rcases mem_append.mp hin with hin | hin
    · exact hc t' hin
    · exact he hf ⟨t', Or.inl (mem_singleton.mp hin).symm⟩
  · rcases mem_append.mp hin with hin | hin
    · exact ha t' hin
    · exact he hf ⟨t', Or.inr (mem_singleton.mp hin).symm⟩

/-- A call that ends no write of the cluster leaves it in order. -/
theorem ClusterInv.snoc (h : ClusterInv past c)
    (he : ∀ w ∈ c.writes, w.complete = tickFuture → ¬ EndsWrite e w.serial) : ClusterInv (past ++ [e]) c :=
  { h with genuine := fun w hw => (h.genuine w hw).snoc (he w hw) }

/-- **An open cluster takes one more write.** -/
theorem ClusterInv.startWrite {s t : Nat} {d : Data} (h : ClusterInv past c)
    (hopen : c.complete = tickFuture) (hstart : c.start = tickFuture ∨ c.start ≤ t)
    (hnew : ∀ e' ∈ past, e'.serial < s) :
    ∃ c', c.startWrite s t d = some c' ∧ ClusterInv (past ++ [.startWrite s t d]) c' ∧
      c'.complete = tickFuture ∧ (c'.start = t ∨ c'.start = c.start ∧ c.start ≠ tickFuture) ∧
      c'.writes = c.writes ++ [⟨s, t, tickFuture, d⟩] := by
  have hserial : ∀ w ∈ c.writes, w.serial < s := fun w hw => hnew _ (h.genuine w hw).started
  have hany : c.writes.any (·.serial == s) = false := by
    rw [any_eq_false]
    intro w hw
    have hlt := hserial w hw
    simp only [beq_iff_eq]
    omega
  obtain ⟨start', hstart'⟩ : ∃ start', start' = if c.start = tickFuture then t else c.start := ⟨_, rfl⟩
  have hle : ¬ t < start' := by
    split at hstart'
    · omega
    · rename_i hne
      have := hstart.resolve_left hne
      omega
  refine ⟨⟨start', tickFuture, c.writes ++ [⟨s, t, tickFuture, d⟩], c.completeMax, c.numIncomplete + 1⟩,
    ?_, ?_, rfl, ?_, rfl⟩
  · unfold WriteCluster.startWrite
    rw [if_neg (by simp [WriteCluster.isComplete, hopen])]
    rw [← hstart', if_neg hle, if_neg (fun hbad => hbad.1 hopen), hany, if_neg (by decide)]
  · refine ⟨fun w hw => ?_, ?_, ?_, fun w hw hne => ?_, ?_, fun hf => absurd rfl hf, fun _ hzero => ?_⟩
    · rcases mem_append.mp hw with hw | hw
      · exact (h.genuine w hw).snoc fun _ => by simp [EndsWrite]
      · rw [mem_singleton.mp hw]
        refine ⟨by simp, Or.inr ⟨rfl, ⟨t, d, by simp⟩, fun t' hin => ?_, fun t' hin => ?_⟩⟩
        · have hin' := (mem_append.mp hin).resolve_right (by simp)
          exact absurd (hnew _ hin') (Nat.lt_irrefl _)
        · have hin' := (mem_append.mp hin).resolve_right (by simp)
          exact absurd (hnew _ hin') (Nat.lt_irrefl _)
    · rw [map_append, nodup_append]
      refine ⟨h.nodup, nodup_singleton _, fun a ha b hb => ?_⟩
      obtain ⟨w, hw, rfl⟩ := mem_map.mp ha
      have hlt := hserial w hw
      rw [map_singleton, mem_singleton] at hb
      subst hb
      exact Nat.ne_of_lt hlt
    · rw [countP_append, ← h.count]
      simp
    · rcases mem_append.mp hw with hw | hw
      · exact h.le_max w hw hne
      · rw [mem_singleton.mp hw] at hne
        exact absurd rfl hne
    · exact h.max_mem.imp_right fun ⟨w, hw, heq⟩ => ⟨w, mem_append_left _ hw, heq⟩
    · exact absurd hzero (Nat.succ_ne_zero _)
  · split at hstart'
    · exact Or.inl hstart'
    · rename_i hne
      exact Or.inr ⟨hstart', hne⟩

/-- The record with a serial is at one place of the list. -/
theorem split_serial {ws : List Transaction} (hnodup : (ws.map (·.serial)).Nodup) (hw : w ∈ ws) :
    ∃ pre post, ws = pre ++ w :: post ∧ ∀ w' ∈ pre ++ post, w'.serial ≠ w.serial := by
  obtain ⟨pre, post, rfl⟩ := append_of_mem hw
  refine ⟨pre, post, rfl, fun w' hw' heq => ?_⟩
  rw [map_append, map_cons, nodup_middle, ← map_append] at hnodup
  exact (nodup_cons.mp hnodup).1 (heq ▸ mem_map_of_mem hw')

/-- An update by serial changes that place only. -/
theorem map_serial (f : Transaction → Transaction) (hother : ∀ w' ∈ pre ++ post, w'.serial ≠ w.serial) :
    ((pre ++ w :: post).map fun w' => if w'.serial = w.serial then f w' else w') = pre ++ f w :: post := by
  have hsame : ∀ l : List Transaction, (∀ w' ∈ l, w' ∈ pre ++ post) →
      (l.map fun w' => if w'.serial = w.serial then f w' else w') = l := fun l hl => by
    refine (map_congr_left fun w' hw' => ?_).trans (map_id l)
    exact if_neg (hother w' (hl w' hw'))
  rw [map_append, map_cons, hsame pre fun _ => mem_append_left _, hsame post fun _ => mem_append_right _, if_pos rfl]

/-- A removal by serial takes that place out. -/
theorem filter_serial (hother : ∀ w' ∈ pre ++ post, w'.serial ≠ w.serial) :
    ((pre ++ w :: post).filter fun w' => w'.serial ≠ w.serial) = pre ++ post := by
  have hsame := filter_eq_self.mpr fun w' hw' => decide_eq_true (hother w' hw')
  rw [filter_append, filter_cons_of_neg (by simp), ← filter_append, hsame]

section End

variable {c : WriteCluster} {s t : Nat} {w : Transaction} {pre post : List Transaction}

/-- A write that has not ended has no completion time yet. -/
theorem Genuine.outstanding (h : Genuine past w) (hout : Writing past w.serial) : w.complete = tickFuture :=
  h.ended.elim (fun hc => absurd hc (hout.2.1 _)) And.left

theorem mem_middle {w' : Transaction} : w' ∈ pre ++ w :: post ↔ w' = w ∨ w' ∈ pre ++ post :=
  perm_middle.mem_iff.trans mem_cons

/-- The end of one write leaves the other records of its cluster right. -/
theorem others_genuine (h : ClusterInv past c) (hwrites : c.writes = pre ++ w :: post)
    (hother : ∀ w' ∈ pre ++ post, w'.serial ≠ w.serial) (he : ∀ s', EndsWrite e s' → s' = w.serial) :
    ∀ w' ∈ pre ++ post, Genuine (past ++ [e]) w' := by
  intro w' hw'
  have hmem : w' ∈ c.writes := hwrites ▸ mem_middle.mpr (Or.inr hw')
  exact (h.genuine w' hmem).snoc fun _ hends => hother w' hw' (he _ hends)

theorem ClusterInv.max_ne (h : ClusterInv past c) : c.completeMax ≠ tickFuture := by
  rcases h.max_mem with hinit | ⟨w, -, hne, heq⟩
  · rw [hinit]
    decide
  · exact heq ▸ hne

/-- The counter of incomplete writes is lowered by one, without wrapping. -/
theorem ClusterInv.decrement (h : ClusterInv past c) (hwrites : c.writes = pre ++ w :: post)
    (hfuture : w.complete = tickFuture) :
    WriteCluster.decrement c.numIncomplete = (pre ++ post).countP (·.complete = tickFuture) := by
  have hcount : c.numIncomplete = (pre ++ post).countP (·.complete = tickFuture) + 1 := by
    rw [h.count, hwrites, countP_append]
    simp [hfuture]
    omega
  rw [WriteCluster.decrement, hcount, if_neg (Nat.succ_ne_zero _), Nat.add_sub_cancel]

/-- A search by serial finds that place. -/
theorem find_serial (hother : ∀ w' ∈ pre ++ post, w'.serial ≠ w.serial) :
    (pre ++ w :: post).find? (·.serial == w.serial) = some w := by
  rw [find?_append, find?_eq_none.mpr fun w' hw' => by
    simpa using hother w' (mem_append_left _ hw')]
  simp

section

variable (h : ClusterInv past c)

include h

/-- No assertion fails at the end of a write that is going on. -/
theorem ClusterInv.completeWrite_isSome (hw : w ∈ c.writes)
    (hout : Writing past w.serial) (t : Nat) : (c.completeWrite w.serial t).isSome = true := by
  obtain ⟨pre, post, hwrites, hother⟩ := split_serial h.nodup hw
  unfold WriteCluster.completeWrite
  rw [hwrites, find_serial hother]
  dsimp only
  rw [if_neg (not_not.mpr ((h.genuine w hw).outstanding hout))]
  rfl

section

variable (hopen : c.complete = tickFuture)

include hopen

/-- **A write of the cluster ends**, completed (`mid` is its record) or aborted (`mid` is empty); the cluster
    closes with its last write. -/
theorem ClusterInv.resolved
    (hwrites : c.writes = pre ++ w :: post) (hother : ∀ w' ∈ pre ++ post, w'.serial ≠ w.serial)
    (hfuture : w.complete = tickFuture) (mid : List Transaction) {m n : Nat}
    (he : ∀ s', EndsWrite e s' → s' = w.serial) (hlen : mid.length ≤ 1)
    (hmid : ∀ w' ∈ mid, w'.serial = w.serial ∧ Genuine (past ++ [e]) w' ∧ w'.complete ≠ tickFuture ∧
      w'.complete ≤ m) (hle : c.completeMax ≤ m) (hm : m = c.completeMax ∨ ∃ w' ∈ mid, w'.complete = m)
    (hn : n = (pre ++ post).countP (·.complete = tickFuture)) :
    ClusterInv (past ++ [e]) ⟨c.start, if n = 0 ∧ mid ++ (pre ++ post) ≠ [] then m else c.complete,
      pre ++ (mid ++ post), m, n⟩ := by
  have hperm : (pre ++ (mid ++ post)).Perm (mid ++ (pre ++ post)) := perm_append_comm_assoc ..
  have hmem : ∀ {w'}, w' ∈ pre ++ (mid ++ post) ↔ w' ∈ mid ∨ w' ∈ pre ++ post :=
    hperm.mem_iff.trans mem_append
  have hne : m ≠ tickFuture := by
    rcases hm with rfl | ⟨w', hw', rfl⟩
    · exact h.max_ne
    · exact (hmid w' hw').2.2.1
  refine ⟨fun w' hw' => ?_, ?_, ?_, fun w' hw' hne => ?_, ?_, fun hc => ?_, fun hc hzero => ?_⟩
  · exact (hmem.mp hw').elim (fun hin => (hmid w' hin).2.1) (others_genuine h hwrites hother he w')
  · have hnodup := h.nodup
    rw [hwrites, (perm_middle.map _).nodup_iff, map_cons, nodup_cons] at hnodup
    rw [(hperm.map _).nodup_iff, map_append, nodup_append]
    refine ⟨?_, hnodup.2, fun a ha b hb hab => ?_⟩
    · rcases mid with _ | ⟨x, _ | ⟨y, rest⟩⟩
      · exact nodup_nil
      · exact nodup_singleton _
      · exact absurd hlen (by simp)
    · obtain ⟨w', hw', rfl⟩ := mem_map.mp ha
      exact hnodup.1 ((hmid w' hw').1 ▸ hab ▸ hb)
  · have hzero : mid.countP (·.complete = tickFuture) = 0 :=
      countP_eq_zero.mpr fun w' hw' => by simpa using (hmid w' hw').2.2.1
    show n = List.countP _ (pre ++ (mid ++ post))
    rw [hperm.countP_eq, countP_append, hzero, Nat.zero_add, hn]
  · rcases hmem.mp hw' with hin | hin
    · exact (hmid w' hin).2.2.2
    · exact Nat.le_trans (h.le_max w' (hwrites ▸ mem_middle.mpr (Or.inr hin)) hne) hle
  · rcases hm with rfl | ⟨w', hw', heq⟩
    · refine h.max_mem.imp_right fun ⟨w', hw', hne, heq⟩ => ⟨w', hmem.mpr (Or.inr ?_), hne, heq⟩
      rw [hwrites] at hw'
      exact (mem_middle.mp hw').resolve_left fun heq => hne (heq ▸ hfuture)
    · exact Or.inr ⟨w', hmem.mpr (Or.inl hw'), (hmid w' hw').2.2.1, heq⟩
  · split_ifs at hc ⊢ with hzero
    · exact ⟨fun hnil => hzero.2 (perm_nil.mp (hnil ▸ hperm.symm)), hzero.1, rfl⟩
    · exact absurd hopen hc
  · dsimp only at hc hzero ⊢
    by_contra hnil
    rw [if_pos ⟨hzero, fun heq => hnil (perm_nil.mp (heq ▸ hperm))⟩] at hc
    exact hne hc

/-- **Completion** of a write of the cluster. -/
theorem ClusterInv.completeWrite
    (hw : w ∈ c.writes) (hout : Writing past w.serial) (hmax : t < tickFuture) :
    ∃ c' pre post, c.completeWrite w.serial t = some c' ∧
      ClusterInv (past ++ [.completeWrite w.serial t]) c' ∧ c'.start = c.start ∧
      c.writes = pre ++ w :: post ∧ c'.writes = pre ++ { w with complete := t } :: post := by
  obtain ⟨pre, post, hwrites, hother⟩ := split_serial h.nodup hw
  have hfuture := (h.genuine w hw).outstanding hout
  have hfind : c.writes.find? (·.serial == w.serial) = some w := hwrites ▸ find_serial hother
  have hinv := h.resolved hopen hwrites hother hfuture [{ w with complete := t }]
    (e := .completeWrite w.serial t) (m := if c.completeMax < t then t else c.completeMax)
    (fun s' hends => by simpa [EndsWrite, eq_comm] using hends) le_rfl
    (forall_mem_singleton.mpr ⟨rfl, ⟨mem_append_left _ (h.genuine w hw).started,
      Or.inl (by simp)⟩, Nat.ne_of_lt hmax, by dsimp only; split_ifs <;> omega⟩)
    (by split_ifs <;> omega) (by split_ifs <;> simp) rfl
  refine ⟨_, pre, post, ?_, hinv, rfl, hwrites, rfl⟩
  unfold WriteCluster.completeWrite
  rw [hfind]
  dsimp only
  rw [if_neg (not_not.mpr hfuture), h.decrement hwrites hfuture, hwrites,
    map_serial (fun w' => { w' with complete := t }) hother]
  simp

/-- **Abortion** of a write of the cluster. -/
theorem ClusterInv.abortWrite
    (hw : w ∈ c.writes) (hout : Writing past w.serial) (t : Nat) :
    ∃ pre post, ClusterInv (past ++ [.abortWrite w.serial t]) (c.abortWrite w.serial) ∧
      (c.abortWrite w.serial).start = c.start ∧
      c.writes = pre ++ w :: post ∧ (c.abortWrite w.serial).writes = pre ++ post := by
  obtain ⟨pre, post, hwrites, hother⟩ := split_serial h.nodup hw
  have hfuture := (h.genuine w hw).outstanding hout
  have hany : c.writes.any (·.serial == w.serial) = true :=
    any_eq_true.mpr ⟨w, hw, beq_self_eq_true _⟩
  have hinv := h.resolved hopen hwrites hother hfuture [] (e := .abortWrite w.serial t)
    (fun s' hends => by simpa [EndsWrite, eq_comm] using hends) (by simp)
    nofun le_rfl (Or.inl rfl) rfl
  unfold WriteCluster.abortWrite
  rw [if_pos hany, h.decrement hwrites hfuture, hwrites, filter_serial hother]
  exact ⟨pre, post, hinv, rfl, rfl, rfl⟩

end

end

end End

/-! ## The tracker -/

/-- What is known of an observation: it is the initial one, or a read that is over. -/
def ObservedRead (past : List MemEvent) (l : Transaction) : Prop :=
  (l.start = tickInitial ∧ l.complete = tickInitial) ∨
    (startRead l.serial l.start ∈ past ∧ completeRead l.serial l.complete l.data ∈ past)

/-- A write that another one followed before every outstanding read began. -/
def Overwritten (past : List MemEvent) (reads : List Transaction) (s : Nat) : Prop :=
  ∃ t s' t' d' u', completeWrite s t ∈ past ∧ startWrite s' t' d' ∈ past ∧ completeWrite s' u' ∈ past ∧
    t < t' ∧ ∀ r ∈ reads, u' < r.start

/-- The write is in one of the clusters. -/
def InClusters (cs : List WriteCluster) (s : Nat) : Prop := ∃ c ∈ cs, ∃ w ∈ c.writes, w.serial = s

/-- The relation is `<`, `≤`, or between them. -/
structure Between (R : Nat → Nat → Prop) : Prop where
  of_lt : ∀ {a b}, a < b → R a b
  le : ∀ {a b}, R a b → a ≤ b

theorem between_lt : Between (· < ·) := ⟨id, Nat.le_of_lt⟩

theorem between_le : Between (· ≤ ·) := ⟨Nat.le_of_lt, id⟩

variable {R : Nat → Nat → Prop}

/-- **What holds after every history**; `R` is `≤` where several calls may share a tick, and `<` where
    each has one of its own. -/
structure Tracked (R : Nat → Nat → Prop) (past : List MemEvent) (t : ByteTracker) : Prop where
  reads : ∀ r ∈ t.outstandingReads, startRead r.serial r.start ∈ past
  outstanding : ∀ s, Reading past s → ∃ r ∈ t.outstandingReads, r.serial = s
  sorted : t.outstandingReads.Pairwise fun a b => a.serial < b.serial ∧ R a.start b.start
  observed : ∀ l ∈ t.readObservations, l.complete = tickInitial ∨ ∃ e ∈ past, e.tick = l.complete
  oldest : ∃ b ∈ t.readObservations.getLast?, ∀ r ∈ t.outstandingReads, R b.complete r.start
  clusters : ∀ c ∈ t.writeClusters, ClusterInv past c
  began : ∀ c ∈ t.writeClusters, ∃ e ∈ past, e.tick = c.start
  older : ∀ c ∈ t.writeClusters.tail, c.complete ≠ tickFuture
  live : ∀ s, Writing past s → InClusters t.writeClusters s

theorem tracked_init : Tracked R [] .init where
  reads := nofun
  outstanding := fun s hs => (by obtain ⟨⟨t, ht⟩, -⟩ := hs; cases ht)
  sorted := List.Pairwise.nil
  observed := fun l hl => by
    rw [mem_singleton.mp hl]
    exact Or.inl rfl
  oldest := ⟨_, rfl, nofun⟩
  clusters := nofun
  began := nofun
  older := nofun
  live := fun s hs => (by obtain ⟨⟨t, d, ht⟩, -⟩ := hs; cases ht)

/-- **The invariant of a tracker** whose calls have ticks of their own. -/
structure TrackerInv (past : List MemEvent) (t : ByteTracker) : Prop where
  reads : ∀ r ∈ t.outstandingReads, startRead r.serial r.start ∈ past
  outstanding : ∀ s, Reading past s → ∃ r ∈ t.outstandingReads, r.serial = s
  sorted : t.outstandingReads.Pairwise fun a b => a.serial < b.serial ∧ a.start < b.start
  observed : ∀ l ∈ t.readObservations, ObservedRead past l
  oldest : ∃ b ∈ t.readObservations.getLast?, ∀ r ∈ t.outstandingReads, b.complete < r.start
  clusters : ∀ c ∈ t.writeClusters, ClusterInv past c
  began : ∀ c ∈ t.writeClusters, ∃ e ∈ past, e.tick = c.start
  older : ∀ c ∈ t.writeClusters.tail, c.complete ≠ tickFuture
  apart : ByteTracker.Apart t.writeClusters
  known : ∀ s a d, startWrite s a d ∈ past → (∃ b, abortWrite s b ∈ past) ∨
    InClusters t.writeClusters s ∨ Overwritten past t.outstandingReads s

/-- What calls at distinct ticks add to `Tracked`. -/
theorem TrackerInv.of_tracked (h : Tracked (· < ·) past t) (hobserved : ∀ l ∈ t.readObservations, ObservedRead past l)
    (hapart : ByteTracker.Apart t.writeClusters)
    (hknown : ∀ s a d, startWrite s a d ∈ past → (∃ b, abortWrite s b ∈ past) ∨
      InClusters t.writeClusters s ∨ Overwritten past t.outstandingReads s) : TrackerInv past t :=
  { h with observed := hobserved, apart := hapart, known := hknown }

theorem trackerInv_init : TrackerInv [] .init :=
  .of_tracked tracked_init (fun l hl => Or.inl (by rw [mem_singleton.mp hl]; exact ⟨rfl, rfl⟩))
    List.Pairwise.nil nofun

theorem TrackerInv.tracked (h : TrackerInv past t) : Tracked (· < ·) past t :=
  { h with
    observed := fun l hl => (h.observed l hl).imp And.right fun hread => ⟨_, hread.2, rfl⟩
    live := fun s ⟨⟨a, d, hs⟩, hnc, hna⟩ => by
      rcases h.known s a d hs with ⟨b, hb⟩ | hin | ⟨u, _, _, _, _, hu, -⟩
      · exact absurd hb (hna b)
      · exact hin
      · exact absurd hu (hnc u) }

/-- A search that drops something stops at an element that completed before the tick. -/
theorem downTo_spec {T : Type} (complete : T → Nat) (before : Nat) (l : List T) :
    ∃ dropped, l = downTo complete before l ++ dropped ∧
      (dropped = [] ∨ ∃ k ∈ (downTo complete before l).getLast?, complete k < before) := by
  induction l with
  | nil => exact ⟨[], rfl, Or.inl rfl⟩
  | cons x older ih =>
    unfold downTo
    split
    · rename_i hlt
      exact ⟨older, rfl, Or.inr ⟨x, rfl, hlt⟩⟩
    · obtain ⟨dropped, heq, hk⟩ := ih
      refine ⟨dropped, by rw [cons_append, ← heq], hk.imp_right fun ⟨k, hk, hlt⟩ => ⟨k, ?_, hlt⟩⟩
      rw [getLast?_cons, hk]
      rfl

theorem mem_of_mem_downTo {T : Type} {complete : T → Nat} {l : List T} {x : T}
    (h : x ∈ downTo complete before l) : x ∈ l := by
  obtain ⟨dropped, heq, -⟩ := downTo_spec complete before l
  rw [heq]
  exact mem_append_left _ h

/-- The element that the search stops at completed before the tick, or is the last one. -/
theorem lastCompleted_of {P : Nat → Prop} {l : List Transaction} {b : Transaction}
    (hb : l.getLast? = some b) (hP : P b.complete) (hlt : ∀ n < before, P n) :
    ∃ x ∈ l, (downTo (·.complete) before l).getLast? = some x ∧ P x.complete := by
  obtain ⟨dropped, heq, hk⟩ := downTo_spec (·.complete) before l
  rcases hk with rfl | ⟨k, hk, hk_lt⟩
  · rw [append_nil] at heq
    exact ⟨b, mem_of_getLast? hb, heq ▸ hb, hP⟩
  · exact ⟨k, mem_of_mem_downTo (mem_of_getLast? hk), hk, hlt _ hk_lt⟩

/-! ## Pruning -/

/-- No read that is going on began before the tick down to which is pruned. -/
theorem Tracked.pruneTick_le (h : Tracked R past t) (hR : Between R) (curTick : Nat) :
    ∀ r ∈ t.outstandingReads, t.pruneTick curTick ≤ r.start := by
  have hsorted := h.sorted
  unfold ByteTracker.pruneTick
  generalize t.outstandingReads = reads at hsorted ⊢
  cases reads with
  | nil => exact nofun
  | cons r₀ rest =>
    intro r hr
    rcases mem_cons.mp hr with rfl | hr
    · exact Nat.le_refl _
    · exact hR.le ((pairwise_cons.mp hsorted).1 r hr).2

/-- The tracker after pruning. -/
def ByteTracker.pruned (t : ByteTracker) (before : Nat) : ByteTracker :=
  { t with
    readObservations := downTo (·.complete) before t.readObservations
    writeClusters := downTo (·.complete) before t.writeClusters }

/-- A write that is going on is in the newest cluster, which is open. -/
theorem Tracked.writing (h : Tracked R past t) {s : Nat} (hout : Writing past s) :
    ∃ c rest w, t.writeClusters = c :: rest ∧ c.complete = tickFuture ∧ w ∈ c.writes ∧ w.serial = s := by
  obtain ⟨c, hc, w, hw, rfl⟩ := h.live s hout
  have hinv := h.clusters c hc
  have hopen : c.complete = tickFuture := by
    by_contra hne
    exact (hinv.over hne w hw).1 ((hinv.genuine w hw).outstanding hout)
  cases hcs : t.writeClusters with
  | nil => rw [hcs] at hc; cases hc
  | cons back older =>
    have holder := h.older
    rw [hcs] at hc holder
    rcases mem_cons.mp hc with rfl | hc
    · exact ⟨c, older, w, rfl, hopen, hw, rfl⟩
    · exact absurd hopen (holder c hc)

/-- **Pruning fails no assertion, and keeps what is known.** -/
theorem Tracked.prune (h : Tracked R past t) (hR : Between R) (curTick : Nat) :
    t.pruneTransactions curTick = some (t.pruned (t.pruneTick curTick)) ∧
      Tracked R past (t.pruned (t.pruneTick curTick)) := by
  have hfirst := h.pruneTick_le hR curTick
  generalize hbefore : t.pruneTick curTick = before at hfirst ⊢
  obtain ⟨b, hb, hb_le⟩ := h.oldest
  refine ⟨?_, h.reads, h.outstanding, h.sorted, fun l hl => h.observed l (mem_of_mem_downTo hl), ?_,
    fun c hc => h.clusters c (mem_of_mem_downTo hc), fun c hc => h.began c (mem_of_mem_downTo hc),
    fun c hc => ?_, fun s hs => ?_⟩
  · unfold ByteTracker.pruneTransactions
    rw [hbefore, if_neg]
    · rfl
    · intro hnil
      rw [List.isEmpty_iff.mp hnil] at hb
      cases hb
  · obtain ⟨k, -, hk, hk_le⟩ := lastCompleted_of (P := fun n => ∀ r ∈ t.outstandingReads, R n r.start)
      hb hb_le fun n hn r hr => hR.of_lt (Nat.lt_of_lt_of_le hn (hfirst r hr))
    exact ⟨k, hk, hk_le⟩
  · refine h.older c ?_
    obtain ⟨dropped, heq, -⟩ := downTo_spec (·.complete) before t.writeClusters
    have hsub : (downTo (·.complete) before t.writeClusters).tail <+: t.writeClusters.tail := by
      nth_rewrite 2 [heq]
      cases downTo (·.complete) before t.writeClusters with
      | nil => exact nil_prefix
      | cons k ks => exact prefix_append ks dropped
    exact hsub.subset hc
  · -- the open cluster is the newest one, which is kept
    obtain ⟨c, rest, w, hcs, -, hw, hws⟩ := h.writing hs
    refine ⟨c, ?_, w, hw, hws⟩
    show c ∈ downTo (·.complete) before t.writeClusters
    rw [hcs, downTo]
    split <;> exact mem_cons_self

/-- The tick down to which is pruned is not beyond `tickFuture`. -/
theorem TrackerInv.pruneTick_lt (h : TrackerInv past t) (hticks : ∀ e ∈ past, e.tick < tickFuture)
    (hcur : curTick ≤ tickFuture) : t.pruneTick curTick ≤ tickFuture := by
  have hreads := h.reads
  unfold ByteTracker.pruneTick
  generalize t.outstandingReads = reads at hreads ⊢
  cases reads with
  | nil => exact hcur
  | cons r rest => exact Nat.le_of_lt (hticks _ (hreads r mem_cons_self))

/-- A completion time in a record comes from a call. -/
theorem Genuine.completed (h : Genuine past w) (hne : w.complete ≠ tickFuture) :
    completeWrite w.serial w.complete ∈ past := h.ended.resolve_right fun hf => hne hf.1

/-- **Pruning keeps the invariant.** -/
theorem TrackerInv.prune (h : TrackerInv past t) (hticks : ∀ e ∈ past, e.tick < tickFuture)
    (hcur : curTick ≤ tickFuture) : ∃ t', t.pruneTransactions curTick = some t' ∧ TrackerInv past t' := by
  have hfirst := h.tracked.pruneTick_le between_lt curTick
  have hlt_future := h.pruneTick_lt hticks hcur
  obtain ⟨hprune, hT⟩ := h.tracked.prune between_lt curTick
  generalize t.pruneTick curTick = before at hfirst hlt_future hprune hT
  obtain ⟨dropped, heq, hk⟩ := downTo_spec (·.complete) before t.writeClusters
  have hapart := h.apart
  rw [heq] at hapart
  refine ⟨_, hprune, .of_tracked hT (fun l hl => h.observed l (mem_of_mem_downTo hl))
    (pairwise_append.mp hapart).1 fun s a d hs => ?_⟩
  rcases h.known s a d hs with hab | ⟨c, hc, w, hw, rfl⟩ | hover
  · exact Or.inl hab
  · have hc_inv := h.clusters c hc
    rw [heq] at hc
    rcases mem_append.mp hc with hc | hc
    · exact Or.inr (Or.inl ⟨c, hc, w, hw, rfl⟩)
    -- the cluster is dropped: the oldest one that is kept followed it
    rcases hk with rfl | ⟨k, hk, hlt⟩
    · cases hc
    have hk_mem := mem_of_getLast? hk
    have hk_inv := h.clusters k (mem_of_mem_downTo hk_mem)
    have hk_closed : k.complete ≠ tickFuture := by omega
    obtain ⟨w', hw'⟩ := exists_mem_of_ne_nil _ (hk_inv.closed hk_closed).1
    obtain ⟨hw'_ne, hw'_le⟩ := hk_inv.over hk_closed w' hw'
    have hw'_gen := hk_inv.genuine w' hw'
    have hafter : w.complete < w'.start :=
      (pairwise_append.mp hapart).2.2 k hk_mem c hc w' hw' w hw
    have hw'_start : w'.start < tickFuture := hticks _ hw'_gen.started
    refine Or.inr (Or.inr ⟨w.complete, w'.serial, w'.start, w'.data, w'.complete,
      (hc_inv.genuine w hw).completed (by omega), hw'_gen.started, hw'_gen.completed hw'_ne, hafter, fun r hr => ?_⟩)
    have := hfirst r hr
    omega
  · exact Or.inr (Or.inr hover)

/-! ## Steps -/

section Steps

variable {t : ByteTracker} {s tick : Nat} {d : Data}

variable {l r : Transaction} {reads : List Transaction} {c : WriteCluster} {rest : List WriteCluster}

theorem ObservedRead.snoc (h : ObservedRead past l) : ObservedRead (past ++ [e]) l :=
  h.imp_right fun ⟨hs, hc⟩ => ⟨mem_append_left _ hs, mem_append_left _ hc⟩

/-- A write that no read can return any more stays so. -/
theorem Overwritten.snoc {reads' : List Transaction} (h : Overwritten past reads s)
    (hreads : ∀ u, (∃ e' ∈ past, e'.tick = u) → (∀ r ∈ reads, u < r.start) → ∀ r ∈ reads', u < r.start) :
    Overwritten (past ++ [e]) reads' s := by
  obtain ⟨t, s', t', d', u', hc, hs', hc', hlt, hall⟩ := h
  exact ⟨t, s', t', d', u', mem_append_left _ hc, mem_append_left _ hs',
    mem_append_left _ hc', hlt, hreads u' ⟨_, hc', rfl⟩ hall⟩

theorem tick_snoc {u : Nat} (h : ∃ e' ∈ past, e'.tick = u) : ∃ e' ∈ past ++ [e], e'.tick = u :=
  h.imp fun _ he' => ⟨mem_append_left _ he'.1, he'.2⟩

/-- What is known of an old write stays known after a call. -/
theorem TrackerInv.known_snoc (h : TrackerInv past t) {a : Nat} (hs : startWrite s a d ∈ past)
    (hreads : ∀ u, (∃ e' ∈ past, e'.tick = u) → (∀ r ∈ t.outstandingReads, u < r.start) → ∀ r ∈ reads, u < r.start) :
    (∃ b, abortWrite s b ∈ past ++ [e]) ∨ InClusters t.writeClusters s ∨ Overwritten (past ++ [e]) reads s := by
  rcases h.known s a d hs with ⟨b, hb⟩ | hin | hover
  · exact Or.inl ⟨b, mem_append_left _ hb⟩
  · exact Or.inr (Or.inl hin)
  · exact Or.inr (Or.inr (hover.snoc hreads))

theorem Writing.of_snoc (h : Writing (past ++ [e]) s) (he : ∀ a d, e ≠ startWrite s a d) : Writing past s := by
  obtain ⟨⟨a, d, hs⟩, hnc, hna⟩ := h
  refine ⟨⟨a, d, (mem_append.mp hs).resolve_right fun hin => ?_⟩,
    fun u hin => hnc u (mem_append_left _ hin), fun u hin => hna u (mem_append_left _ hin)⟩
  exact he a d (mem_singleton.mp hin).symm

/-- Every observation was complete before the call that comes now. -/
theorem Tracked.complete_tick (h : Tracked R past t) (hl : l ∈ t.readObservations)
    (hticks : ∀ e' ∈ past, R e'.tick tick) (hzero : R 0 tick) : R l.complete tick := by
  rcases h.observed l hl with hinit | ⟨e', he', heq⟩
  · exact hinit ▸ hzero
  · exact heq ▸ hticks e' he'

/-- Serials grow, so a new read comes last in the map. -/
theorem insertRead_append (h : ∀ r' ∈ reads, r'.serial < r.serial) :
    ByteTracker.insertRead r reads = reads ++ [r] := by
  induction reads with
  | nil => rfl
  | cons x rest ih =>
    rw [ByteTracker.insertRead, if_pos (h x mem_cons_self), ih (forall_mem_cons.mp h).2]
    rfl

theorem Tracked.startRead_eq (h : Tracked R past t) (hnew : ∀ e' ∈ past, e'.serial < s) (tick : Nat) :
    t.startRead s tick = { t with outstandingReads := t.outstandingReads ++ [⟨s, tick, tickFuture, 0⟩] } := by
  have hserial : ∀ r ∈ t.outstandingReads, r.serial < s := fun r hr => hnew _ (h.reads r hr)
  rw [ByteTracker.startRead, insertRead_append hserial]

/-- **`startRead`** keeps the records. -/
theorem Tracked.startRead (h : Tracked R past t) (hticks : ∀ e' ∈ past, R e'.tick tick)
    (hzero : R 0 tick) (hnew : ∀ e' ∈ past, e'.serial < s) :
    Tracked R (past ++ [.startRead s tick]) (t.startRead s tick) := by
  obtain ⟨b, hb, hb_le⟩ := h.oldest
  rw [h.startRead_eq hnew]
  refine ⟨forall_mem_append.mpr ⟨fun r hr => mem_append_left _ (h.reads r hr), by simp⟩,
    fun s' hs' => ?_, ?_, fun l hl => (h.observed l hl).imp_right tick_snoc,
    ⟨b, hb, forall_mem_append.mpr ⟨hb_le, ?_⟩⟩, fun c hc => (h.clusters c hc).snoc fun _ _ _ => by simp [EndsWrite],
    fun c hc => tick_snoc (h.began c hc), h.older,
    fun s' hs' => h.live s' (hs'.of_snoc nofun)⟩
  · obtain ⟨⟨t', ht'⟩, hnot⟩ := hs'
    rcases mem_append.mp ht' with ht' | ht'
    · obtain ⟨r, hr, hrs⟩ := h.outstanding s' ⟨⟨t', ht'⟩, fun u d' hin => hnot u d' (mem_append_left _ hin)⟩
      exact ⟨r, mem_append_left _ hr, hrs⟩
    · cases mem_singleton.mp ht'
      exact ⟨_, mem_append_right _ mem_cons_self, rfl⟩
  · refine pairwise_append.mpr ⟨h.sorted, pairwise_singleton _ _, fun r hr r' hr' => ?_⟩
    rw [mem_singleton.mp hr']
    exact ⟨hnew _ (h.reads r hr), hticks _ (h.reads r hr)⟩
  · exact forall_mem_singleton.mpr (h.complete_tick (mem_of_getLast? hb) hticks hzero)

theorem TrackerInv.startRead (h : TrackerInv past t) (ha : Allowed past (.startRead s tick)) :
    TrackerInv (past ++ [.startRead s tick]) (t.startRead s tick) := by
  obtain ⟨hticks, hpos, -, hnew⟩ := ha
  refine .of_tracked (h.tracked.startRead hticks hpos hnew) (fun l hl => (h.observed l hl).snoc) h.apart
    fun s' a d' hs' => h.known_snoc ((mem_append.mp hs').resolve_right (by simp)) ?_
  intro u ⟨e', he', hu⟩ hall
  rw [h.tracked.startRead_eq hnew]
  exact forall_mem_append.mpr ⟨hall, forall_mem_singleton.mpr (hu ▸ hticks e' he')⟩

/-- A call about a write changes the clusters only; the records of reads stay right. -/
theorem Tracked.writeStep (h : Tracked R past t) (he : ∀ s u, e ≠ .startRead s u)
    {cs : List WriteCluster} (hclusters : ∀ c ∈ cs, ClusterInv (past ++ [e]) c)
    (hbegan : ∀ c ∈ cs, ∃ e' ∈ past ++ [e], e'.tick = c.start) (holder : ∀ c ∈ cs.tail, c.complete ≠ tickFuture)
    (hlive : ∀ s, Writing (past ++ [e]) s → InClusters cs s) :
    Tracked R (past ++ [e]) { t with writeClusters := cs } where
  reads := fun r hr => mem_append_left _ (h.reads r hr)
  outstanding := fun s ⟨⟨u, hu⟩, hnot⟩ => by
    refine h.outstanding s ⟨⟨u, ?_⟩, fun u d hin => hnot u d (mem_append_left _ hin)⟩
    exact (mem_append.mp hu).resolve_right fun hin => he s u (mem_singleton.mp hin).symm
  sorted := h.sorted
  observed := fun l hl => (h.observed l hl).imp_right tick_snoc
  oldest := h.oldest
  clusters := hclusters
  began := hbegan
  older := holder
  live := hlive

/-- In a closed cluster all is over before a later call. -/
theorem ClusterInv.over_lt (h : ClusterInv past c) (hc : c.complete ≠ tickFuture)
    (hticks : ∀ e' ∈ past, e'.tick < tick) : ∀ w ∈ c.writes, w.complete < tick := fun w hw =>
  hticks _ ((h.genuine w hw).completed (h.over hc w hw).1)

/-- The cluster that a call about a write works on: the newest one if it is open, or else a fresh one. -/
theorem Tracked.updateCluster_eq (h : Tracked R past t) :
    ∃ c rest, (∀ f, t.updateCluster f = (f c).map fun c' => { t with writeClusters := c' :: rest }) ∧
      ((c = .fresh ∧ rest = t.writeClusters ∧ ∀ k ∈ rest, k.complete ≠ tickFuture) ∨
        (t.writeClusters = c :: rest ∧ c.complete = tickFuture)) := by
  have holder := h.older
  unfold ByteTracker.updateCluster
  cases hcs : t.writeClusters with
  | nil => exact ⟨.fresh, [], fun f => rfl, Or.inl ⟨rfl, rfl, nofun⟩⟩
  | cons back older =>
    rw [hcs] at holder
    by_cases hopen : back.complete = tickFuture
    · refine ⟨back, older, fun f => ?_, Or.inr ⟨rfl, hopen⟩⟩
      dsimp only
      rw [if_neg (by simp [WriteCluster.isComplete, hopen])]
    · refine ⟨.fresh, back :: older, fun f => ?_, Or.inl ⟨rfl, rfl, forall_mem_cons.mpr ⟨hopen, holder⟩⟩⟩
      dsimp only
      rw [if_pos (by simp [WriteCluster.isComplete, hopen])]

/-- **`startWrite`** goes to the newest cluster if that is open, and else begins a new one. -/
theorem Tracked.startWrite (h : Tracked R past t) (hticks : ∀ e' ∈ past, e'.tick ≤ tick)
    (hnew : ∀ e' ∈ past, e'.serial < s) : ∃ (c c' : WriteCluster) (rest : List WriteCluster),
      t.startWrite s tick d = some { t with writeClusters := c' :: rest } ∧
      Tracked R (past ++ [.startWrite s tick d]) { t with writeClusters := c' :: rest } ∧
      c'.writes = c.writes ++ [⟨s, tick, tickFuture, d⟩] ∧
      ((c = .fresh ∧ rest = t.writeClusters ∧ ∀ k ∈ rest, k.complete ≠ tickFuture) ∨
        (t.writeClusters = c :: rest ∧ c.complete = tickFuture)) := by
  obtain ⟨c, rest, hupdate, hcase⟩ := h.updateCluster_eq
  -- the cluster that gets the write, and those behind it
  obtain ⟨hinv, hopen, hstart, hrest, hrest_sub, hold⟩ : ClusterInv past c ∧
      c.complete = tickFuture ∧ (c.start = tickFuture ∨ ∃ e' ∈ past, e'.tick = c.start) ∧
      (∀ k ∈ rest, k.complete ≠ tickFuture) ∧ (∀ k ∈ rest, k ∈ t.writeClusters) ∧
      ∀ s', InClusters t.writeClusters s' → InClusters (c :: rest) s' := by
    rcases hcase with ⟨rfl, rfl, hclosed⟩ | ⟨hcs, hopen⟩
    · exact ⟨clusterInv_fresh, rfl, Or.inl rfl, hclosed, fun k hk => hk,
        fun s' ⟨k, hk, hw⟩ => ⟨k, mem_cons_of_mem _ hk, hw⟩⟩
    · have hmem : c ∈ t.writeClusters := by rw [hcs]; exact mem_cons_self
      exact ⟨h.clusters c hmem, hopen, Or.inr (h.began c hmem), fun k hk => h.older k (by rw [hcs]; exact hk),
        fun k hk => by rw [hcs]; exact mem_cons_of_mem _ hk, fun s' hs' => hcs ▸ hs'⟩
  have hstart_le : c.start = tickFuture ∨ c.start ≤ tick :=
    hstart.imp_right fun ⟨e', he', heq⟩ => heq ▸ hticks e' he'
  obtain ⟨c', hc', hinv', hopen', hstart', hwrites⟩ := hinv.startWrite (d := d) hopen hstart_le hnew
  refine ⟨c, c', rest, ?_, ?_, hwrites, hcase⟩
  · unfold ByteTracker.startWrite
    rw [hupdate, hc']
    rfl
  refine h.writeStep (fun _ _ hbad => (by cases hbad)) (fun k hk => ?_) (fun k hk => ?_) hrest fun s' hs' => ?_
  · rcases mem_cons.mp hk with rfl | hk
    · exact hinv'
    · exact (h.clusters k (hrest_sub k hk)).snoc fun _ _ _ => by simp [EndsWrite]
  · rcases mem_cons.mp hk with rfl | hk
    · rcases hstart' with heq | ⟨heq, hne⟩
      · exact ⟨_, mem_append_right _ mem_cons_self, heq.symm⟩
      · exact heq ▸ tick_snoc (hstart.resolve_left hne)
    · exact tick_snoc (h.began k (hrest_sub k hk))
  · by_cases hss : s' = s
    · exact ⟨c', mem_cons_self, _, hwrites ▸ mem_append_right _ mem_cons_self, hss.symm⟩
    · obtain ⟨k, hk, w, hw, heq⟩ := hold s' (h.live s' (hs'.of_snoc fun a d' hbad => by
        cases hbad
        exact hss rfl))
      rcases mem_cons.mp hk with rfl | hk
      · exact ⟨c', mem_cons_self, w, hwrites ▸ mem_append_left _ hw, heq⟩
      · exact ⟨k, mem_cons_of_mem _ hk, w, hw, heq⟩

/-- At distinct ticks a new cluster begins after the end of the one before, so that they stay apart. -/
theorem TrackerInv.startWrite (h : TrackerInv past t) (ha : Allowed past (.startWrite s tick d)) :
    ∃ t', t.startWrite s tick d = some t' ∧ TrackerInv (past ++ [.startWrite s tick d]) t' := by
  obtain ⟨hticks, -, -, hnew⟩ := ha
  obtain ⟨c, c', rest, ht, hT, hwrites, hcase⟩ :=
    h.tracked.startWrite (d := d) (fun e' he' => Nat.le_of_lt (hticks e' he')) hnew
  obtain ⟨hold, hrest_sub, hapart⟩ : (∀ s', InClusters t.writeClusters s' → InClusters (c :: rest) s') ∧
      (∀ k ∈ rest, k ∈ t.writeClusters) ∧ ByteTracker.Apart (c :: rest) := by
    rcases hcase with ⟨rfl, rfl, -⟩ | ⟨hcs, -⟩
    · exact ⟨fun s' ⟨k, hk, hw⟩ => ⟨k, mem_cons_of_mem _ hk, hw⟩, fun k hk => hk,
        pairwise_cons.mpr ⟨nofun, h.apart⟩⟩
    · rw [hcs]
      exact ⟨fun _ hin => hin, fun k hk => mem_cons_of_mem _ hk, hcs ▸ h.apart⟩
  obtain ⟨hnewest, hrest_apart⟩ := pairwise_cons.mp hapart
  refine ⟨_, ht, .of_tracked hT (fun l hl => (h.observed l hl).snoc) ?_ fun s' a d' hs' => ?_⟩
  · refine pairwise_cons.mpr ⟨fun k hk w hw w' hw' => ?_, hrest_apart⟩
    rw [hwrites] at hw
    rcases mem_append.mp hw with hw | hw
    · exact hnewest k hk w hw w' hw'
    · rw [mem_singleton.mp hw]
      exact (h.clusters k (hrest_sub k hk)).over_lt (hT.older k hk) hticks w' hw'
  · rcases mem_append.mp hs' with hs' | hs'
    · refine (h.known_snoc hs' fun _ _ hall => hall).imp_right (Or.imp_left fun hin => ?_)
      obtain ⟨k, hk, w, hw, heq⟩ := hold s' hin
      rcases mem_cons.mp hk with rfl | hk
      · exact ⟨c', mem_cons_self, w, hwrites ▸ mem_append_left _ hw, heq⟩
      · exact ⟨k, mem_cons_of_mem _ hk, w, hw, heq⟩
    · cases mem_singleton.mp hs'
      exact Or.inr (Or.inl ⟨c', mem_cons_self, _, hwrites ▸ mem_append_right _ mem_cons_self, rfl⟩)

/-- The end of a write changes the newest cluster. -/
theorem Tracked.endWrite (h : Tracked R past t) {c' : WriteCluster}
    (hcs : t.writeClusters = c :: rest) (hend : isStart e = false)
    (hinv : ClusterInv (past ++ [e]) c') (hbegan : c'.start = c.start)
    (hserials : ∀ w ∈ c.writes, (∃ u, e = .abortWrite w.serial u) ∨ ∃ w' ∈ c'.writes, w'.serial = w.serial) :
    Tracked R (past ++ [e]) { t with writeClusters := c' :: rest } := by
  have holder := h.older
  have hmem : ∀ k ∈ c :: rest, k ∈ t.writeClusters := fun k hk => hcs ▸ hk
  rw [hcs] at holder
  refine h.writeStep (fun s u heq => by rw [heq] at hend; cases hend) (fun k hk => ?_)
    (fun k hk => ?_) holder fun s hs => ?_
  · rcases mem_cons.mp hk with rfl | hk
    · exact hinv
    · -- the writes of the closed clusters have ended before
      have hk_inv := h.clusters k (hmem k (mem_cons_of_mem _ hk))
      exact hk_inv.snoc fun w hw hf => absurd hf (hk_inv.over (holder k hk) w hw).1
  · rcases mem_cons.mp hk with rfl | hk
    · exact hbegan ▸ tick_snoc (h.began c (hmem c mem_cons_self))
    · exact tick_snoc (h.began k (hmem k (mem_cons_of_mem _ hk)))
  · obtain ⟨k, hk, w, hw, rfl⟩ := h.live s (hs.of_snoc fun a d heq => by rw [heq] at hend; cases hend)
    rw [hcs] at hk
    rcases mem_cons.mp hk with rfl | hk
    · rcases hserials w hw with ⟨u, rfl⟩ | ⟨w', hw', heq⟩
      · exact absurd (by simp) (hs.2.2 u)
      · exact ⟨c', mem_cons_self, w', hw', heq⟩
    · exact ⟨k, mem_cons_of_mem _ hk, w, hw, rfl⟩

/-- The same at distinct ticks: the clusters stay apart, and what is known of other writes stays known. -/
theorem TrackerInv.endWrite (h : TrackerInv past t) {c' : WriteCluster}
    (hcs : t.writeClusters = c :: rest) (hend : isStart e = false)
    (hinv : ClusterInv (past ++ [e]) c') (hbegan : c'.start = c.start)
    (hwrites : ∀ w' ∈ c'.writes, ∃ w ∈ c.writes, w'.start = w.start)
    (hserials : ∀ w ∈ c.writes, (∃ u, e = .abortWrite w.serial u) ∨ ∃ w' ∈ c'.writes, w'.serial = w.serial) :
    TrackerInv (past ++ [e]) { t with writeClusters := c' :: rest } := by
  have hT := h.tracked.endWrite hcs hend hinv hbegan hserials
  have hapart := h.apart
  rw [hcs] at hapart
  obtain ⟨hnewest, hrest⟩ := pairwise_cons.mp hapart
  refine .of_tracked hT (fun l hl => (h.observed l hl).snoc) ?_ fun s a d hs => ?_
  · refine pairwise_cons.mpr ⟨fun k hk w' hw' w'' hw'' => ?_, hrest⟩
    obtain ⟨w, hw, heq⟩ := hwrites w' hw'
    rw [heq]
    exact hnewest k hk w hw w'' hw''
  · have hs' := (mem_append.mp hs).resolve_right fun hin => by
      rw [← mem_singleton.mp hin] at hend
      cases hend
    rcases h.known_snoc hs' fun _ _ hall => hall with hab | ⟨k, hk, w, hw, rfl⟩ | hover
    · exact Or.inl hab
    · rw [hcs] at hk
      rcases mem_cons.mp hk with rfl | hk
      · rcases hserials w hw with ⟨u, rfl⟩ | ⟨w', hw', heq⟩
        · exact Or.inl ⟨u, by simp⟩
        · exact Or.inr (Or.inl ⟨c', mem_cons_self, w', hw', heq⟩)
      · exact Or.inr (Or.inl ⟨k, mem_cons_of_mem _ hk, w, hw, rfl⟩)
    · exact Or.inr (Or.inr hover)

theorem updateCluster_open (hcs : t.writeClusters = c :: rest) (hopen : c.complete = tickFuture)
    (f : WriteCluster → Option WriteCluster) :
    t.updateCluster f = (f c).map fun c' => { t with writeClusters := c' :: rest } := by
  unfold ByteTracker.updateCluster
  rw [hcs]
  dsimp only
  rw [if_neg (by simp [WriteCluster.isComplete, hopen])]

/-- Pruning finds an observation to keep. -/
theorem pruneTransactions_isSome (hobs : t.readObservations ≠ []) (curTick : Nat) :
    (t.pruneTransactions curTick).isSome = true := by
  unfold ByteTracker.pruneTransactions
  rw [if_neg (by simpa using hobs)]
  rfl

/-- There is always an observation, if only the initial one. -/
theorem Tracked.observations_ne (h : Tracked R past t) : t.readObservations ≠ [] := fun hnil => by
  obtain ⟨b, hb, -⟩ := h.oldest
  rw [hnil] at hb
  cases hb

theorem Allowed.tick_lt (ha : Allowed past e) (hmax : e.tick < tickFuture) :
    ∀ e' ∈ past ++ [e], e'.tick < tickFuture := fun e' he' => by
  rcases mem_append.mp he' with he' | he'
  · exact Nat.lt_trans (ha.1 e' he') hmax
  · rw [mem_singleton.mp he']
    exact hmax

/-- **`completeWrite`** up to the pruning. -/
theorem Tracked.completed_cluster (h : Tracked R past t) (hout : Writing past s) (hmax : tick < tickFuture) :
    ∃ c c' rest, t.writeClusters = c :: rest ∧
      t.updateCluster (·.completeWrite s tick) = some { t with writeClusters := c' :: rest } ∧
      ClusterInv (past ++ [.completeWrite s tick]) c' ∧ c'.start = c.start ∧
      (∀ w' ∈ c'.writes, ∃ w ∈ c.writes, w'.start = w.start) ∧
      ∀ w ∈ c.writes, ∃ w' ∈ c'.writes, w'.serial = w.serial := by
  obtain ⟨c, rest, w, hcs, hopen, hw, rfl⟩ := h.writing hout
  obtain ⟨c', pre, post, hc', hinv, hbegan, hwrites, hwrites'⟩ :=
    (h.clusters c (hcs ▸ mem_cons_self)).completeWrite hopen hw hout hmax
  refine ⟨c, c', rest, hcs, by rw [updateCluster_open hcs hopen, hc']; rfl, hinv, hbegan,
    fun w' hw' => ?_, fun w' hw' => ?_⟩
  · rw [hwrites'] at hw'
    rcases mem_middle.mp hw' with rfl | hin
    · exact ⟨w, hw, rfl⟩
    · exact ⟨w', hwrites ▸ mem_middle.mpr (Or.inr hin), rfl⟩
  · rw [hwrites] at hw'
    rw [hwrites']
    rcases mem_middle.mp hw' with rfl | hin
    · exact ⟨{ w' with complete := tick }, by simp, rfl⟩
    · exact ⟨w', mem_middle.mpr (Or.inr hin), rfl⟩

/-- **`completeWrite`**, with the pruning at any value of `curTick`. -/
theorem TrackerInv.completeWrite (h : TrackerInv past t) (ha : Allowed past (.completeWrite s tick))
    {curTick : Nat} (hcur : curTick ≤ tickFuture) : ∃ t', t.completeWrite curTick s tick = some t' ∧
      (tick < tickFuture → TrackerInv (past ++ [.completeWrite s tick]) t') := by
  have hout : Writing past s := ha.2.2.2
  unfold ByteTracker.completeWrite
  by_cases hmax : tick < tickFuture
  case neg =>
    -- the last tick there is: nothing can follow
    obtain ⟨c, rest, w, hcs, hopen, hw, rfl⟩ := h.tracked.writing hout
    obtain ⟨c', hc'⟩ := Option.isSome_iff_exists.mp
      ((h.clusters c (hcs ▸ mem_cons_self)).completeWrite_isSome hw hout tick)
    rw [updateCluster_open hcs hopen, hc']
    obtain ⟨t', ht'⟩ := Option.isSome_iff_exists.mp (pruneTransactions_isSome
      (t := { t with writeClusters := c' :: rest }) h.tracked.observations_ne curTick)
    exact ⟨t', ht', fun hlt => absurd hlt hmax⟩
  obtain ⟨c, c', rest, hcs, hupdate, hinv, hbegan, hstarts, hserials⟩ :=
    h.tracked.completed_cluster hout hmax
  have hnew := h.endWrite hcs rfl hinv hbegan hstarts fun w hw => Or.inr (hserials w hw)
  obtain ⟨t', ht', hinv'⟩ := hnew.prune (ha.tick_lt hmax) hcur
  rw [hupdate]
  exact ⟨t', ht', fun _ => hinv'⟩

/-- **`abortWrite`** takes the write out of its cluster. -/
theorem Tracked.aborted_cluster (h : Tracked R past t) (hout : Writing past s) (tick : Nat) :
    ∃ c c' rest, t.writeClusters = c :: rest ∧ t.abortWrite s = some { t with writeClusters := c' :: rest } ∧
      ClusterInv (past ++ [.abortWrite s tick]) c' ∧ c'.start = c.start ∧
      (∀ w' ∈ c'.writes, ∃ w ∈ c.writes, w'.start = w.start) ∧
      ∀ w ∈ c.writes, (∃ u, MemEvent.abortWrite s tick = .abortWrite w.serial u) ∨
        ∃ w' ∈ c'.writes, w'.serial = w.serial := by
  obtain ⟨c, rest, w, hcs, hopen, hw, rfl⟩ := h.writing hout
  obtain ⟨pre, post, hinv, hbegan, hwrites, hwrites'⟩ :=
    (h.clusters c (hcs ▸ mem_cons_self)).abortWrite hopen hw hout tick
  refine ⟨c, _, rest, hcs, ?_, hinv, hbegan, fun w' hw' => ⟨w', ?_, rfl⟩, fun w' hw' => ?_⟩
  · unfold ByteTracker.abortWrite
    rw [updateCluster_open hcs hopen]
    rfl
  · rw [hwrites'] at hw'
    exact hwrites ▸ mem_middle.mpr (Or.inr hw')
  · rw [hwrites] at hw'
    rw [hwrites']
    rcases mem_middle.mp hw' with rfl | hin
    · exact Or.inl ⟨tick, rfl⟩
    · exact Or.inr ⟨w', hin, rfl⟩

theorem TrackerInv.abortWrite (h : TrackerInv past t) (ha : Allowed past (.abortWrite s tick)) :
    ∃ t', t.abortWrite s = some t' ∧ TrackerInv (past ++ [.abortWrite s tick]) t' := by
  obtain ⟨c, c', rest, hcs, ht, hinv, hbegan, hstarts, hserials⟩ :=
    h.tracked.aborted_cluster ha.2.2.2 tick
  exact ⟨_, ht, h.endWrite hcs rfl hinv hbegan hstarts hserials⟩

/-- The record of a read that is going on is found by its serial. -/
theorem Tracked.find_read (h : Tracked R past t) (hout : Reading past s) :
    ∃ r ∈ t.outstandingReads, r.serial = s ∧ t.outstandingReads.find? (·.serial == s) = some r := by
  obtain ⟨r, hr, rfl⟩ := h.outstanding s hout
  have hnodup : (t.outstandingReads.map (·.serial)).Nodup :=
    pairwise_map.mpr (h.sorted.imp fun hlt => Nat.ne_of_lt hlt.1)
  obtain ⟨pre, post, heq, hother⟩ := split_serial hnodup hr
  exact ⟨r, hr, rfl, heq ▸ find_serial hother⟩

/-- **`completeRead`** turns the record of a read into an observation. -/
theorem Tracked.completeRead (h : Tracked R past t) (s tick : Nat) (d : Data) (r : Transaction)
    (expected : List Data) : Tracked R (past ++ [.completeRead s tick d]) { t with
        outstandingReads := t.outstandingReads.filter fun r => r.serial ≠ s
        lastExpectedData := expected
        readObservations := ⟨s, r.start, tick, d⟩ :: t.readObservations } := by
  obtain ⟨b, hb, hb_le⟩ := h.oldest
  refine ⟨fun r' hr' => mem_append_left _ (h.reads r' (mem_of_mem_filter hr')),
    fun s' hs' => ?_, h.sorted.filter _, ?_, ⟨b, ?_, fun r' hr' => hb_le r' (mem_of_mem_filter hr')⟩,
    fun c hc => (h.clusters c hc).snoc fun _ _ _ => by simp [EndsWrite],
    fun c hc => tick_snoc (h.began c hc), h.older,
    fun s' hs' => h.live s' (hs'.of_snoc nofun)⟩
  · obtain ⟨⟨u, hu⟩, hnot⟩ := hs'
    have hu' := (mem_append.mp hu).resolve_right (by simp)
    obtain ⟨r', hr', hrs'⟩ := h.outstanding s' ⟨⟨u, hu'⟩, fun u d' hin => hnot u d' (mem_append_left _ hin)⟩
    have hne : s' ≠ s := fun heq => hnot tick d (by rw [heq]; simp)
    exact ⟨r', mem_filter.mpr ⟨hr', by simp [hrs', hne]⟩, hrs'⟩
  · exact forall_mem_cons.mpr ⟨Or.inr ⟨.completeRead s tick d, by simp, rfl⟩,
      fun l hl => (h.observed l hl).imp_right tick_snoc⟩
  · rw [getLast?_cons, hb]
    rfl

theorem TrackerInv.completeRead (h : TrackerInv past t) (tick : Nat) (d : Data)
    (hr : r ∈ t.outstandingReads) (hrs : r.serial = s) (expected : List Data) :
    TrackerInv (past ++ [.completeRead s tick d]) { t with
        outstandingReads := t.outstandingReads.filter fun r => r.serial ≠ s
        lastExpectedData := expected
        readObservations := ⟨s, r.start, tick, d⟩ :: t.readObservations } := by
  refine .of_tracked (h.tracked.completeRead s tick d r expected) (forall_mem_cons.mpr
    ⟨Or.inr ⟨mem_append_left _ (hrs ▸ h.reads r hr), by simp⟩, fun l hl => (h.observed l hl).snoc⟩)
    h.apart fun s' a d' hs' => ?_
  exact h.known_snoc ((mem_append.mp hs').resolve_right (by simp))
    fun _ _ hall r' hr' => hall r' (mem_of_mem_filter hr')

end Steps

end NvpSim.Mem
