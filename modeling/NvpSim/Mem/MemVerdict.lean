/-
  When the scan of `inExpectedData` finds the value of a read.

  The scan goes back through the clusters, newest first, ignores the writes that were over before the last
  observation began, and stops behind the first cluster with a write that was over before the read began.
  `inExpectedData_true` says that the answer is yes in the two situations in which a register can return a
  value:

  * some write of that value is still known, and no known write lies between it and the read;
  * no known write was over before the read began.
-/
import Mathlib.Data.List.Basic
import NvpSim.Mem.MemChecker

namespace NvpSim.Mem

open NvpSim.Sim List

/-- The last observation is later than the write: the scan ignores it. -/
def Ignored (lastObs w : Transaction) : Prop := w.complete < lastObs.start

namespace ByteTracker

variable {iter : List Transaction → List Transaction} {lastObs : Transaction} {start : Nat} {data : Data}
  {s s' : Scan}

theorem scanWrites_spec {ws : List Transaction} (h : scanWrites lastObs start data s ws = .ok s') :
    (∀ w ∈ ws, ¬ Ignored lastObs w → w.data ≠ data) ∧ (s'.wcOverlap = true ↔
      s.wcOverlap = true ∧ ∀ w ∈ ws, ¬ Ignored lastObs w → start < w.complete) ∧
    (s'.lastObsValid = true ↔ s.lastObsValid = true ∧
      ∀ w ∈ ws, ¬ Ignored lastObs w → start < w.complete ∨ w.start ≤ lastObs.complete) := by
  induction ws generalizing s with
  | nil =>
    cases h
    exact ⟨nofun, by simp, by simp⟩
  | cons w ws ih =>
    unfold scanWrites scanWrite at h
    simp only [forall_mem_cons]
    by_cases hign : w.complete < lastObs.start
    · rw [if_pos hign] at h
      obtain ⟨hdata, hoverlap, hvalid⟩ := ih h
      have hign' : Ignored lastObs w := hign
      exact ⟨⟨fun hn => absurd hign' hn, hdata⟩, by simpa [hign'] using hoverlap,
        by simpa [hign'] using hvalid⟩
    · have hign' : ¬ Ignored lastObs w := hign
      rw [if_neg hign] at h
      by_cases hmatch : w.data = data
      · rw [if_pos hmatch] at h
        cases h
      rw [if_neg hmatch] at h
      by_cases hover : start < w.complete
      · rw [if_pos hover] at h
        obtain ⟨hdata, hoverlap, hvalid⟩ := ih h
        exact ⟨⟨fun _ => hmatch, hdata⟩, by simpa [hign', hover] using hoverlap,
          by simpa [hign', hover] using hvalid⟩
      · rw [if_neg hover] at h
        obtain ⟨hdata, hoverlap, hvalid⟩ := ih h
        refine ⟨⟨fun _ => hmatch, hdata⟩, by simpa [hign', hover] using hoverlap, ?_⟩
        by_cases hlate : lastObs.complete < w.start
        · simpa [hign', hover, hlate, Nat.not_le_of_lt hlate] using hvalid
        · simpa [hign', hover, hlate, Nat.le_of_not_lt hlate] using hvalid

variable (hiter : ∀ l, (iter l).Perm l)

include hiter in
/-- **The clusters scanned without a match.** -/
theorem scanClusters_spec {cs : List WriteCluster} (hs : s.wcOverlap = true)
    (h : scanClusters iter lastObs start data s cs = .ok s') :
    (s'.wcOverlap = true → ∀ c ∈ cs, ∀ w ∈ c.writes, ¬ Ignored lastObs w → w.data ≠ data ∧ start < w.complete) ∧
    (s'.wcOverlap = false → ∃ newer c older, cs = newer ++ c :: older ∧
      (∀ c' ∈ newer ++ [c], ∀ w ∈ c'.writes, ¬ Ignored lastObs w → w.data ≠ data) ∧
      ∃ w ∈ c.writes, w.complete ≤ start) ∧
    (s'.lastObsValid = false → s.lastObsValid = false ∨ ∃ c ∈ cs, ∃ w ∈ c.writes,
      w.complete ≤ start ∧ lastObs.complete < w.start) ∧ (s'.lastObsValid = true → s.lastObsValid = true) := by
  induction cs generalizing s with
  | nil =>
    cases h
    exact ⟨nofun, fun hf => absurd (hs.symm.trans hf) (by decide), fun hf => Or.inl hf, id⟩
  | cons c cs ih =>
    unfold scanClusters at h
    rw [if_pos hs] at h
    cases hscan : scanWrites lastObs start data s (iter c.writes) with
    | error expected => rw [hscan] at h; cases h
    | ok s₁ =>
      rw [hscan] at h
      dsimp only at h
      obtain ⟨hdata, hoverlap, hvalid⟩ := scanWrites_spec hscan
      have hmem : ∀ w, w ∈ iter c.writes ↔ w ∈ c.writes := fun w => (hiter c.writes).mem_iff
      simp only [hmem] at hdata hoverlap hvalid
      -- what this cluster does to the last observation
      have hvalid₁ : s₁.lastObsValid = false → s.lastObsValid = false ∨
          ∃ w ∈ c.writes, w.complete ≤ start ∧ lastObs.complete < w.start := by
        intro hf
        by_contra hnot
        push Not at hnot
        refine absurd (hvalid.mpr ⟨Bool.of_not_eq_false hnot.1, fun w hw _ => ?_⟩) (by simp [hf])
        by_cases hle : w.complete ≤ start
        · have hstart := hnot.2 w hw hle
          exact Or.inr (by omega)
        · exact Or.inl (Nat.lt_of_not_le hle)
      by_cases hs₁ : s₁.wcOverlap = true
      · obtain ⟨hall, hstop, hinvalid, hmono⟩ := ih hs₁ h
        refine ⟨fun ht c' hc' w hw hn => ?_, fun hf => ?_, fun hf => ?_, fun ht => ?_⟩
        · rcases mem_cons.mp hc' with rfl | hc'
          · exact ⟨hdata w hw hn, (hoverlap.mp hs₁).2 w hw hn⟩
          · exact hall ht c' hc' w hw hn
        · obtain ⟨newer, c₁, older, rfl, hno, hover⟩ := hstop hf
          refine ⟨c :: newer, c₁, older, rfl, fun c' hc' w hw hn => ?_, hover⟩
          rcases mem_cons.mp hc' with rfl | hc'
          · exact hdata w hw hn
          · exact hno c' hc' w hw hn
        · rcases hinvalid hf with hf₁ | ⟨c', hc', hw⟩
          · exact (hvalid₁ hf₁).imp_right fun hw => ⟨c, mem_cons_self, hw⟩
          · exact Or.inr ⟨c', mem_cons_of_mem _ hc', hw⟩
        · exact (hvalid.mp (hmono ht)).1
      · -- the scan stops here
        have heq : s' = s₁ := by
          cases cs with
          | nil => cases h; rfl
          | cons c' cs =>
            unfold scanClusters at h
            rw [if_neg hs₁] at h
            cases h
            rfl
        subst heq
        have hover : ∃ w ∈ c.writes, w.complete ≤ start := by
          by_contra hnot
          push Not at hnot
          refine hs₁ (hoverlap.mpr ⟨hs, fun w hw _ => ?_⟩)
          have hlate := hnot w hw
          omega
        refine ⟨fun ht => absurd ht hs₁, fun _ => ⟨[], c, cs, rfl, fun c' hc' w hw hn => ?_, hover⟩,
          fun hf => (hvalid₁ hf).imp_right fun hw => ⟨c, mem_cons_self, hw⟩, fun ht => (hvalid.mp ht).1⟩
        rw [nil_append, mem_singleton] at hc'
        subst hc'
        exact hdata w hw hn

/-- Newer clusters began after the older ones were over. -/
def Apart (cs : List WriteCluster) : Prop :=
  cs.Pairwise fun newer older => ∀ w ∈ newer.writes, ∀ w' ∈ older.writes, w'.complete < w.start

include hiter in
/-- **When the value of a read is expected.** -/
theorem inExpectedData_true {t : ByteTracker} {complete : Nat}
    (hobs : lastCompletedTransaction (·.complete) t.readObservations start = some lastObs)
    (hle : lastObs.complete ≤ start) (hinit : lastObs.complete = tickInitial → lastObs.start = tickInitial)
    (hspan : lastObs.start ≤ lastObs.complete) (hapart : Apart t.writeClusters)
    (hfirst : ∀ first ∈ t.writeClusters.getLast?, first.start < complete) (hlast : ∀ last ∈ t.writeClusters.head?,
      (∀ w ∈ last.writes, start < w.complete) → start < last.complete)
    (hvalue : (∃ c ∈ t.writeClusters, ∃ w ∈ c.writes, w.data = data ∧
        (∀ c' ∈ t.writeClusters, ∀ w' ∈ c'.writes, w.complete < w'.start → start < w'.complete) ∧
        (w.complete < lastObs.start → lastObs.data = data)) ∨
      ((∀ c ∈ t.writeClusters, ∀ w ∈ c.writes, start < w.complete) ∧
        (lastObs.complete = tickInitial ∨ lastObs.data = data))) :
    ∃ expected, t.inExpectedData iter start complete data = some (true, expected) := by
  unfold inExpectedData
  rw [hobs, Option.bind_some]
  cases hscan : scanClusters iter lastObs start data ⟨lastObs.complete != tickInitial, true, []⟩ t.writeClusters with
  | error expected => exact ⟨expected, rfl⟩
  | ok s =>
    obtain ⟨hall, hstop, hinvalid, hmono⟩ := scanClusters_spec hiter rfl hscan
    -- with a valid last observation of the value the answer is yes
    have hyes : s.lastObsValid = true → lastObs.data = data →
        ∃ expected, t.otherSources lastObs start complete data s = some (true, expected) := by
      intro hv hd
      unfold otherSources
      rw [if_pos hv, if_neg (Nat.not_lt_of_le hle), if_pos hd]
      exact ⟨_, rfl⟩
    show ∃ expected, t.otherSources lastObs start complete data s = some (true, expected)
    rcases hvalue with ⟨c, hc, w, hw, hdata, hbetween, hobsData⟩ | ⟨hover, hinitial⟩
    · -- a write of the value is known: the scan can only have ignored it
      have hign : Ignored lastObs w := by
        by_contra hn
        cases hwc : s.wcOverlap with
        | true => exact (hall hwc c hc w hw hn).1 hdata
        | false =>
          obtain ⟨newer, c₁, older, heq, hno, w₁, hw₁, hle₁⟩ := hstop hwc
          rw [heq] at hc hapart hbetween
          rcases mem_append.mp hc with hc | hc
          · exact hno c (mem_append_left _ hc) w hw hn hdata
          rcases mem_cons.mp hc with rfl | hc
          · exact hno c (by simp) w hw hn hdata
          · have hlt := (pairwise_cons.mp (pairwise_append.mp hapart).2.1).1 c hc w₁ hw₁ w hw
            exact absurd (hbetween c₁ (by simp) w₁ hw₁ hlt) (Nat.not_lt_of_le hle₁)
      have hign' : w.complete < lastObs.start := hign
      refine hyes ?_ (hobsData hign')
      by_contra hv
      rcases hinvalid (by simpa using hv) with hf | ⟨c', hc', w', hw', hle', hlt'⟩
      · have hzero : lastObs.complete = tickInitial := by simpa using hf
        have hzero' := hinit hzero
        rw [hzero'] at hign'
        exact absurd hign' (Nat.not_lt_zero _)
      · exact absurd (hbetween c' hc' w' hw' (by omega)) (Nat.not_lt_of_le hle')
    · -- no known write was over before the read began
      have hwc : s.wcOverlap = true := by
        by_contra hn
        obtain ⟨newer, c₁, older, heq, -, w₁, hw₁, hle₁⟩ := hstop (by simpa using hn)
        exact absurd (hover c₁ (by rw [heq]; simp) w₁ hw₁) (Nat.not_lt_of_le hle₁)
      by_cases hv : s.lastObsValid = true
      · refine hyes hv (hinitial.resolve_left fun hzero => ?_)
        have hne := hmono hv
        rw [hzero] at hne
        exact absurd hne (by decide)
      · unfold otherSources
        rw [if_neg hv]
        cases hcs : t.writeClusters with
        | nil =>
          rw [hcs] at hscan
          cases hscan
          refine ⟨[], ?_⟩
          have hzero : lastObs.complete = tickInitial := by simpa using hv
          dsimp only [getLast?_nil, isEmpty_nil]
          rw [if_pos rfl, if_pos hzero]
        | cons back older =>
          obtain ⟨first, hf⟩ : ∃ first, (back :: older).getLast? = some first :=
            Option.isSome_iff_exists.mp (by simp)
          rw [hf, hwc]
          dsimp only [head?_cons]
          rw [if_pos ⟨hfirst first (by rw [hcs]; exact hf), hlast back (by rw [hcs]; rfl) fun w hw =>
            hover back (by rw [hcs]; exact mem_cons_self) w hw⟩]
          exact ⟨_, rfl⟩

end ByteTracker

end NvpSim.Mem
