/-
  Renaming loses no physical register and duplicates none, and a squash restores the mapping.

  A physical register is free, or mapped, or waits in the history as the previous register of an entry: `pool`
  collects the three, and `Whole` says that each register of a class is there exactly once.

  `rename` compares the physical register that the zero register is mapped to with its ARCHITECTURAL index, so
  it has to be mapped to the physical register of the same number: `ZeroHome`.
-/
import Mathlib.Algebra.Order.Group.Multiset
import Mathlib.Data.List.TakeWhile
import Mathlib.Tactic.Abel
import NvpSim.Cpu.Rename
import NvpSim.Lib.Run
import NvpSim.Lib.UndoLog

namespace NvpSim.Cpu

open NvpSim.Lib NvpSim.Lib.UndoLog List Option Function

variable {p : RenameParams} {s s' : RenameStage} {c : PhysClass} {r idx n : Nat}

/-! ## Indices -/

/-- The index spaces of an ISA follow each other, and the map of the condition codes is large enough. -/
structure RenameParams.WellFormed (p : RenameParams) : Prop where
  int_float : p.numArch .int ≤ p.fpRegBase
  float_cc : p.fpRegBase + p.numArch .float ≤ p.ccRegBase
  cc_misc : p.ccRegBase + p.numArch .cc ≤ p.miscRegBase
  misc_max : p.miscRegBase ≤ p.maxRegIndex
  cc_float : p.numArch .cc ≤ p.numArch .float

/-- A register of the ISA. -/
def ArchReg.InRange (p : RenameParams) : ArchReg → Prop
  | .reg c idx => idx < p.numArch c
  | .misc idx => idx + p.miscRegBase < p.maxRegIndex

instance (p : RenameParams) (d : ArchReg) : Decidable (d.InRange p) :=
  match d with
  | .reg _ _ | .misc _ => inferInstanceAs (Decidable (_ < _))

theorem regIdxToClass_unified (hw : p.WellFormed) {d : ArchReg} (hd : d.InRange p) :
    p.regIdxToClass (p.unified d) = some d := by
  obtain ⟨hif, hfc, hcm, hmm, -⟩ := hw
  unfold RenameParams.regIdxToClass
  cases d with
  | misc idx =>
    change idx + p.miscRegBase < p.maxRegIndex at hd
    have hu : p.unified (.misc idx) = idx + p.miscRegBase := rfl
    rw [hu, if_pos hd, if_neg (by omega), if_neg (by omega), if_neg (by omega)]
    congr 2
    omega
  | reg c idx =>
    cases c with
    | int =>
      change idx < p.numArch .int at hd
      have hu : p.unified (.reg .int idx) = idx := rfl
      rw [hu, if_pos (by omega), if_pos (by omega)]
    | float =>
      change idx < p.numArch .float at hd
      have hu : p.unified (.reg .float idx) = idx + p.fpRegBase := rfl
      rw [if_pos (by omega), if_neg (by omega), if_pos (by omega)]
      congr 2
      omega
    | cc =>
      change idx < p.numArch .cc at hd
      have hu : p.unified (.reg .cc idx) = idx + p.ccRegBase := rfl
      rw [if_pos (by omega), if_neg (by omega), if_neg (by omega), if_pos (by omega)]
      congr 2
      omega

theorem lt_mapSize (hw : p.WellFormed) (h : idx < p.numArch c) : idx < p.mapSize c := by
  have := hw.cc_float
  cases c <;> simp only [RenameParams.mapSize] <;> omega

theorem isPhysReg_iff : p.isPhysReg c r = true ↔ p.base c ≤ r ∧ r < p.base c + p.numPhys c := by
  simp [RenameParams.isPhysReg]

theorem isPhysReg_unique {c' : PhysClass} (h : p.isPhysReg c r = true) (h' : p.isPhysReg c' r = true) : c = c' := by
  rw [isPhysReg_iff] at h h'
  cases c <;> cases c' <;> simp only [RenameParams.base] at h h' <;> first | rfl | omega

theorem addReg_eq (h : p.isPhysReg c r = true) : s.addReg p r = some (s.pushFree c r) := by
  have hother : ∀ c', c' ≠ c → ¬ p.isPhysReg c' r = true := by
    intro c' hne h'
    exact hne (isPhysReg_unique h' h)
  unfold RenameStage.addReg
  cases c with
  | int => rw [if_pos h]
  | float => rw [if_neg (hother .int (by decide)), if_pos h]
  | cc => rw [if_neg (hother .int (by decide)), if_neg (hother .float (by decide)), if_pos h]

/-! ## Where the physical registers are -/

/-- The entry keeps a previous register of the class from being free. -/
def held (p : RenameParams) (c : PhysClass) (h : RenameHistory) : Bool :=
  h.newPhysReg != h.prevPhysReg && p.isPhysReg c h.prevPhysReg

/-- The previous registers of a class in a history. -/
def prevs (p : RenameParams) (c : PhysClass) (hs : List RenameHistory) : Multiset Nat :=
  ((hs.filter (held p c)).map RenameHistory.prevPhysReg : List Nat)

/-- The registers that a class is mapped to. -/
def mapped (p : RenameParams) (map : PhysClass → Nat → Nat) (c : PhysClass) : Multiset Nat :=
  ((range (p.numArch c)).map (map c) : List Nat)

/-- The free list, the mapping and the previous registers of the history. -/
def pool (p : RenameParams) (s : RenameStage) (hs : List RenameHistory) (c : PhysClass) : Multiset Nat :=
  (s.freeList c : Multiset Nat) + mapped p s.map c + prevs p c hs

/-- All physical registers of a class. -/
def allRegs (p : RenameParams) (c : PhysClass) : Multiset Nat :=
  (range' (p.base c) (p.numPhys c) : List Nat)

/-- Every physical register is in the pool of its class, exactly once. -/
def Whole (p : RenameParams) (s : RenameStage) (hs : List RenameHistory) : Prop :=
  ∀ c, pool p s hs c = allRegs p c

theorem mem_allRegs : r ∈ allRegs p c ↔ p.isPhysReg c r = true := by
  rw [isPhysReg_iff, allRegs, Multiset.mem_coe, mem_range'_1]

theorem nodup_allRegs : (allRegs p c).Nodup := Multiset.coe_nodup.mpr nodup_range'

theorem mem_mapped {map : PhysClass → Nat → Nat} (h : idx < p.numArch c) : map c idx ∈ mapped p map c := by
  rw [mapped]
  exact mem_map.mpr ⟨idx, mem_range.mpr h, rfl⟩

theorem cons_map_update {l : List Nat} (hl : l.Nodup) {i : Nat} (hi : i ∈ l) (f : Nat → Nat) (r : Nat) :
    f i ::ₘ (l.map (update f i r) : List Nat) = r ::ₘ ((l.map f : List Nat) : Multiset Nat) := by
  obtain ⟨l₁, l₂, rfl⟩ := append_of_mem hi
  have hnot : ∀ j ∈ l₁ ++ l₂, j ≠ i := by
    intro j hj heq
    rw [nodup_middle, nodup_cons] at hl
    exact hl.1 (heq ▸ hj)
  have hsame : ∀ l : List Nat, (∀ j ∈ l, j ≠ i) → l.map (update f i r) = l.map f := by
    intro l hne
    apply map_congr_left
    intro j hj
    exact update_of_ne (hne j hj) _ _
  rw [map_append, map_append, map_cons, map_cons, update_self, hsame l₁ (fun j hj => hnot j (mem_append_left _ hj)),
    hsame l₂ (fun j hj => hnot j (mem_append_right _ hj)), Multiset.cons_coe, Multiset.cons_coe, Multiset.coe_eq_coe]
  -- the two registers change places
  have hmiddle : ∀ a b : Nat, (a :: (l₁.map f ++ b :: l₂.map f)).Perm (a :: b :: (l₁.map f ++ l₂.map f)) := by
    intro a b
    exact (perm_middle).cons a
  exact (hmiddle _ _).trans ((List.Perm.swap ..).trans (hmiddle _ _).symm)

theorem mapped_setMap (h : idx < p.numArch c) (c' : PhysClass) :
    (if c' = c then {s.map c idx} else 0) + mapped p (s.setMap c idx r).map c' =
      (if c' = c then {r} else 0) + mapped p s.map c' := by
  by_cases hc : c' = c
  · subst hc
    rw [if_pos rfl, if_pos rfl, mapped, RenameStage.setMap]
    dsimp only
    rw [update_self]
    exact cons_map_update nodup_range (mem_range.mpr h) _ _
  · rw [if_neg hc, if_neg hc, mapped, mapped, RenameStage.setMap]
    dsimp only
    rw [update_of_ne hc]

theorem freeList_pushFree (c' : PhysClass) : ((s.pushFree c r).freeList c' : Multiset Nat) =
      (if c' = c then {r} else 0) + (s.freeList c' : Multiset Nat) := by
  unfold RenameStage.pushFree
  dsimp only
  by_cases hc : c' = c
  · subst hc
    rw [if_pos rfl, update_self, add_comm, ← Multiset.coe_add, Multiset.coe_singleton]
  · rw [if_neg hc, update_of_ne hc, zero_add]

theorem prevs_cons (h : RenameHistory) (hs : List RenameHistory) (c' : PhysClass) :
    prevs p c' (h :: hs) = (if held p c' h then {h.prevPhysReg} else 0) + prevs p c' hs := by
  unfold prevs
  by_cases hh : held p c' h = true
  · rw [filter_cons_of_pos hh, if_pos hh, map_cons, ← Multiset.cons_coe, Multiset.singleton_add]
  · rw [filter_cons_of_neg hh, if_neg hh, zero_add]

theorem held_eq {h : RenameHistory} (hne : h.newPhysReg ≠ h.prevPhysReg)
    (hprev : p.isPhysReg c h.prevPhysReg = true) (c' : PhysClass) :
    (if held p c' h then ({h.prevPhysReg} : Multiset Nat) else 0) =
      if c' = c then {h.prevPhysReg} else 0 := by
  have hiff : held p c' h = true ↔ c' = c := by
    unfold held
    rw [Bool.and_eq_true, bne_iff_ne]
    constructor
    · rintro ⟨-, h'⟩
      exact isPhysReg_unique h' hprev
    · rintro rfl
      exact ⟨hne, hprev⟩
  by_cases hc : c' = c
  · rw [if_pos hc, if_pos (hiff.mpr hc)]
  · rw [if_neg hc, if_neg fun h' => hc (hiff.mp h')]

/-! ## The history as an undo log -/

/-- The mapping before the rename that left an entry. -/
def undoMap (p : RenameParams) (map : PhysClass → Nat → Nat) (h : RenameHistory) : PhysClass → Nat → Nat :=
  if h.newPhysReg ≠ h.prevPhysReg then
    match p.regIdxToClass h.archReg with
    | some (.reg c idx) => update map c (update (map c) idx h.prevPhysReg)
    | _ => map
  else map

/-- An entry that was a change is about a register of some class, which is mapped to its new physical
    register; both physical registers are of that class. -/
def GoodEntry (p : RenameParams) (map : PhysClass → Nat → Nat) (h : RenameHistory) : Prop :=
  h.newPhysReg ≠ h.prevPhysReg → ∃ c idx, p.regIdxToClass h.archReg = some (.reg c idx) ∧ idx < p.numArch c ∧
      map c idx = h.newPhysReg ∧ p.isPhysReg c h.newPhysReg = true ∧ p.isPhysReg c h.prevPhysReg = true

/-- The history leads back along the trail. -/
abbrev Tracks (p : RenameParams) (m₀ map : PhysClass → Nat → Nat) (hs : List RenameHistory)
    (trail : List (Nat × (PhysClass → Nat → Nat))) : Prop :=
  Replays (undoMap p) RenameHistory.instSeqNum (GoodEntry p) m₀ map hs trail

variable {h : RenameHistory} {hs : List RenameHistory} {m₀ : PhysClass → Nat → Nat}
  {trail : List (Nat × (PhysClass → Nat → Nat))}

theorem pool_cons_of_same (hsame : h.newPhysReg = h.prevPhysReg) (hs : List RenameHistory) (c' : PhysClass) :
    pool p s hs c' = pool p s (h :: hs) c' := by
  have hnot : ¬ held p c' h = true := by
    unfold held
    simp [hsame]
  unfold pool
  rw [prevs_cons, if_neg hnot, zero_add]

/-- **An entry is undone**: the previous register is mapped again, the new one is free. -/
theorem undo_spec (hw : p.WellFormed) (hgood : GoodEntry p s.map h) :
    ∃ s', s.undo p h = some s' ∧ s'.map = undoMap p s.map h ∧ ∀ hs c', pool p s' hs c' = pool p s (h :: hs) c' := by
  unfold RenameStage.undo undoMap
  by_cases hne : h.newPhysReg ≠ h.prevPhysReg
  · obtain ⟨c, idx, hclass, hidx, hmap, hnew, hprev⟩ := hgood hne
    rw [if_pos hne, if_pos hne, RenameStage.setEntry, hclass]
    dsimp only
    rw [if_pos ⟨hprev, lt_mapSize hw hidx⟩, bind_some, addReg_eq hnew]
    refine ⟨_, rfl, rfl, ?_⟩
    intro hs c'
    have hexchange := mapped_setMap (p := p) (s := s) (r := h.prevPhysReg) hidx c'
    rw [hmap] at hexchange
    unfold pool
    rw [freeList_pushFree, prevs_cons, held_eq hne hprev]
    show _ + (s.freeList c' : Multiset Nat) + mapped p (s.setMap c idx h.prevPhysReg).map c' + _ = _
    calc _ = (s.freeList c' : Multiset Nat) + ((if c' = c then {h.newPhysReg} else 0) +
          mapped p (s.setMap c idx h.prevPhysReg).map c') + prevs p c' hs := by abel
      _ = _ := by
        rw [hexchange]
        abel
  · rw [if_neg hne, if_neg hne]
    exact ⟨s, rfl, rfl, pool_cons_of_same (not_not.mp hne)⟩

/-- **A squash goes back along the history** and keeps the pool. -/
theorem squashLoop_spec (hw : p.WellFormed) : ∀ {hs : List RenameHistory} {s : RenameStage}
    {trail : List (Nat × (PhysClass → Nat → Nat))}, Tracks p m₀ s.map hs trail →
      ∃ s', RenameStage.squashLoop p n hs s = some s' ∧
        s'.map = (rollback (undoMap p) RenameHistory.instSeqNum n s.map hs).1 ∧
        s'.historyBuffer = (rollback (undoMap p) RenameHistory.instSeqNum n s.map hs).2 ∧
        ∀ c, pool p s' s'.historyBuffer c = pool p s hs c := by
  intro hs
  induction hs with
  | nil =>
    intro s trail _
    exact ⟨_, rfl, rfl, rfl, fun _ => rfl⟩
  | cons h hs ih =>
    intro s trail htracks
    rw [RenameStage.squashLoop, rollback]
    by_cases hlt : n < h.instSeqNum
    · rw [if_pos hlt, if_pos hlt]
      cases trail with
      | nil => exact htracks.elim
      | cons x trail =>
        obtain ⟨-, -, hgood, hrest⟩ := htracks
        obtain ⟨s₁, hs₁, hmap₁, hpool₁⟩ := undo_spec hw hgood
        rw [← hmap₁] at hrest ⊢
        obtain ⟨s', hs', hmap, hhist, hpool⟩ := ih hrest
        refine ⟨s', ?_, hmap, hhist, ?_⟩
        · rw [hs₁, bind_some, hs']
        · intro c
          rw [hpool c, hpool₁ hs c]
    · rw [if_neg hlt, if_neg hlt]
      exact ⟨_, rfl, rfl, rfl, fun _ => rfl⟩

/-- An entry that was a change has registers of a class. -/
def Classed (p : RenameParams) (h : RenameHistory) : Prop :=
  h.newPhysReg ≠ h.prevPhysReg → ∃ c, p.isPhysReg c h.prevPhysReg = true

/-- **An entry is committed**: its previous register is free. -/
theorem retire_spec (hclass : Classed p h) : ∃ s', s.retire p h = some s' ∧ s'.map = s.map ∧
      ∀ hs c', pool p s' hs c' = pool p s (h :: hs) c' := by
  unfold RenameStage.retire
  by_cases hne : h.newPhysReg ≠ h.prevPhysReg
  · obtain ⟨c, hprev⟩ := hclass hne
    rw [if_pos hne, addReg_eq hprev]
    refine ⟨_, rfl, rfl, ?_⟩
    intro hs c'
    unfold pool
    rw [freeList_pushFree, prevs_cons, held_eq hne hprev]
    show _ + (s.freeList c' : Multiset Nat) + mapped p s.map c' + _ = _
    abel
  · rw [if_neg hne]
    exact ⟨s, rfl, rfl, pool_cons_of_same (not_not.mp hne)⟩

theorem pool_reverse (hs : List RenameHistory) (c : PhysClass) : pool p s hs.reverse c = pool p s hs c := by
  unfold pool prevs
  rw [filter_reverse, map_reverse, Multiset.coe_reverse]

/-- **A commit drops the oldest entries** and keeps the pool. -/
theorem commitLoop_spec : ∀ {rs : List RenameHistory} {s : RenameStage}, (∀ h ∈ rs, Classed p h) →
      ∃ s', RenameStage.commitLoop p n rs s = some s' ∧ s'.map = s.map ∧
        s'.historyBuffer = (rs.dropWhile fun h => h.instSeqNum ≤ n).reverse ∧
        ∀ c, pool p s' s'.historyBuffer c = pool p s rs c := by
  intro rs
  induction rs with
  | nil =>
    intro s _
    exact ⟨_, rfl, rfl, rfl, fun _ => rfl⟩
  | cons h rs ih =>
    intro s hclass
    rw [RenameStage.commitLoop]
    by_cases hle : h.instSeqNum ≤ n
    · rw [if_pos hle, dropWhile_cons_of_pos (by simpa using hle)]
      obtain ⟨s₁, hs₁, hmap₁, hpool₁⟩ := retire_spec (s := s) (hclass h (mem_cons_self ..))
      obtain ⟨s', hs', hmap, hhist, hpool⟩ := ih (s := s₁) (forall_mem_cons.mp hclass).2
      refine ⟨s', ?_, hmap.trans hmap₁, hhist, ?_⟩
      · rw [hs₁, bind_some, hs']
      · intro c
        rw [hpool c, hpool₁ rs c]
    · rw [if_neg hle, dropWhile_cons_of_neg (by simpa using hle)]
      refine ⟨_, rfl, rfl, rfl, ?_⟩
      intro c
      exact pool_reverse (h :: rs) c

/-! ## A rename -/

/-- A zero register that is renamed is mapped to the physical register with its own index. -/
def RenameStage.ZeroHome (p : RenameParams) (s : RenameStage) : ArchReg → Prop
  | .reg c idx =>
    idx = p.zeroReg c → s.map c idx = p.zeroReg c ∧ p.isPhysReg c (p.zeroReg c) = true
  | .misc _ => True

/-- A free register is available, if one is needed. -/
def RenameStage.HasFree (p : RenameParams) (s : RenameStage) : ArchReg → Prop
  | .reg c idx => idx ≠ p.zeroReg c → s.freeList c ≠ []
  | .misc _ => True

instance (p : RenameParams) (s : RenameStage) (d : ArchReg) : Decidable (s.ZeroHome p d) :=
  match d with
  | .reg _ _ => inferInstanceAs (Decidable (_ → _))
  | .misc _ => isTrue trivial

instance (p : RenameParams) (s : RenameStage) (d : ArchReg) : Decidable (s.HasFree p d) :=
  match d with
  | .reg _ _ => inferInstanceAs (Decidable (_ → _))
  | .misc _ => isTrue trivial

/-- An entry that was no change has nothing to undo. -/
theorem entry_of_same (hsame : h.newPhysReg = h.prevPhysReg) : undoMap p s.map h = s.map ∧
    GoodEntry p s.map h ∧ ∀ c', pool p s (h :: hs) c' = pool p s hs c' :=
  ⟨if_neg (not_not.mpr hsame), fun hne => absurd hsame hne, fun c' => (pool_cons_of_same hsame hs c').symm⟩

theorem Whole.free_ne_mapped (hwhole : Whole p s hs) {rest : List Nat} (hfree : s.freeList c = r :: rest)
    (hidx : idx < p.numArch c) : r ≠ s.map c idx := by
  intro heq
  have hnodup : (pool p s hs c).Nodup := by rw [hwhole c]; exact nodup_allRegs
  have hdisjoint := (Multiset.nodup_add.mp (Multiset.nodup_add.mp hnodup).1).2.2
  have hmem : r ∈ (s.freeList c : Multiset Nat) := by
    rw [hfree]
    exact mem_cons_self ..
  refine Multiset.disjoint_left.mp hdisjoint hmem ?_
  rw [heq]
  exact mem_mapped hidx

theorem Whole.isPhysReg (hwhole : Whole p s hs) (hr : r ∈ pool p s hs c) : p.isPhysReg c r = true := by
  rw [hwhole c] at hr
  exact mem_allRegs.mp hr

/-- **A register is renamed**: it is mapped to the first free one, the one before goes to the history. -/
theorem renameDest_reg (hw : p.WellFormed) (hwhole : Whole p s hs) (hhist : s.historyBuffer = hs)
    (hidx : idx < p.numArch c) (hzero : idx ≠ p.zeroReg c) (hfree : s.freeList c ≠ []) (seqNum : Nat) :
    ∃ s' h, s.renameDest p seqNum (.reg c idx) = some s' ∧ h.instSeqNum = seqNum ∧
      s'.historyBuffer = h :: hs ∧ undoMap p s'.map h = s.map ∧ GoodEntry p s'.map h ∧
      ∀ c', pool p s' (h :: hs) c' = pool p s hs c' := by
  obtain ⟨r, rest, hrest⟩ := exists_cons_of_ne_nil hfree
  have hne : r ≠ s.map c idx := hwhole.free_ne_mapped hrest hidx
  have hr : p.isPhysReg c r = true := by
    apply hwhole.isPhysReg
    unfold pool
    rw [hrest]
    exact Multiset.mem_add.mpr (Or.inl (Multiset.mem_add.mpr (Or.inl (mem_cons_self ..))))
  have hprev : p.isPhysReg c (s.map c idx) = true := by
    apply hwhole.isPhysReg
    exact Multiset.mem_add.mpr (Or.inl (Multiset.mem_add.mpr (Or.inr (mem_mapped hidx))))
  have hclass := regIdxToClass_unified hw (d := .reg c idx) hidx
  unfold RenameStage.renameDest RenameStage.renameReg RenameStage.renameSimple
  dsimp only
  rw [if_pos (lt_mapSize hw hidx), if_pos hzero, hrest]
  rw [bind_some, if_pos hr]
  refine ⟨_, ⟨seqNum, p.unified (.reg c idx), r, s.map c idx⟩, rfl, rfl, ?_, ?_, ?_, ?_⟩
  · rw [← hhist]
    rfl
  · -- undoing the entry puts the previous register back
    unfold undoMap
    rw [if_pos hne, hclass]
    show update (update s.map c (update (s.map c) idx r)) c
      (update (update s.map c (update (s.map c) idx r) c) idx _) = s.map
    rw [update_self, update_idem, update_idem, update_eq_self, update_eq_self]
  · intro _
    refine ⟨c, idx, hclass, hidx, ?_, hr, hprev⟩
    show update s.map c (update (s.map c) idx r) c idx = r
    rw [update_self, update_self]
  · intro c'
    have hexchange := mapped_setMap (p := p) (s := s) (r := r) hidx c'
    have hlist : (s.freeList c' : Multiset Nat) = (if c' = c then {r} else 0) +
        (update s.freeList c rest c' : Multiset Nat) := by
      by_cases hc : c' = c
      · subst hc
        rw [if_pos rfl, update_self, hrest, ← Multiset.cons_coe, Multiset.singleton_add]
      · rw [if_neg hc, update_of_ne hc, zero_add]
    unfold pool
    rw [prevs_cons, held_eq hne hprev, hlist]
    show (update s.freeList c rest c' : Multiset Nat) + mapped p (s.setMap c idx r).map c' +
      _ = _
    calc _ = (update s.freeList c rest c' : Multiset Nat) +
          ((if c' = c then {s.map c idx} else 0) + mapped p (s.setMap c idx r).map c') + prevs p c' hs := by abel
      _ = _ := by
        rw [hexchange]
        abel

/-- **Any destination is renamed.** -/
theorem renameDest_spec (hw : p.WellFormed) (hwhole : Whole p s hs) (hhist : s.historyBuffer = hs)
    {d : ArchReg} (hd : d.InRange p) (hfree : s.HasFree p d) (hzero : s.ZeroHome p d) (seqNum : Nat) :
    ∃ s' h, s.renameDest p seqNum d = some s' ∧ h.instSeqNum = seqNum ∧
      s'.historyBuffer = h :: hs ∧ undoMap p s'.map h = s.map ∧ GoodEntry p s'.map h ∧
      ∀ c', pool p s' (h :: hs) c' = pool p s hs c' := by
  cases d with
  | misc idx => exact ⟨_, _, rfl, rfl, congrArg _ hhist, entry_of_same rfl⟩
  | reg c idx =>
    by_cases hz : idx = p.zeroReg c
    · obtain ⟨hmap, hphys⟩ := hzero hz
      unfold RenameStage.renameDest RenameStage.renameReg RenameStage.renameSimple
      dsimp only
      rw [if_pos (lt_mapSize hw hd), if_neg (not_not.mpr hz), if_pos hmap, bind_some, if_pos hphys]
      rw [hmap]
      exact ⟨_, _, rfl, rfl, congrArg _ hhist, entry_of_same rfl⟩
    · exact renameDest_reg hw hwhole hhist hd hz (hfree hz) seqNum

theorem zeroHome_of_renameDest {d : ArchReg} {seqNum : Nat} {s' : RenameStage}
    (h : s.renameDest p seqNum d = some s') : s.ZeroHome p d := by
  cases d with
  | misc idx => trivial
  | reg c idx =>
    intro hz
    obtain ⟨info, hinfo, -⟩ := map_eq_some_iff.mp h
    obtain ⟨info', hsimple, hphys⟩ := bind_eq_some_iff.mp hinfo
    unfold RenameStage.renameSimple at hsimple
    rw [if_neg (not_not.mpr hz)] at hsimple
    split at hsimple
    · split at hsimple
      next hmap =>
        cases hsimple
        split at hphys
        next hreg => exact ⟨hmap, hreg⟩
        next => cases hphys
      next => cases hsimple
    · cases hsimple

/-! ## The first state -/

theorem whole_initial (h : ∀ c, p.numArch c ≤ p.numPhys c) : Whole p (.initial p) [] := by
  intro c
  have hmap : (range (p.numArch c)).map (fun idx => p.base c + idx) = range' (p.base c) (p.numArch c) := by
    rw [range'_eq_map_range]
  have hsplit : range' (p.base c) (p.numPhys c) = range' (p.base c) (p.numArch c) ++
      range' (p.base c + p.numArch c) (p.numPhys c - p.numArch c) := by
    rw [range'_append_1]
    congr 1
    have := h c
    omega
  unfold pool mapped prevs allRegs RenameStage.initial
  rw [hmap, hsplit, filter_nil, map_nil, Multiset.coe_nil, add_zero, Multiset.coe_add, Multiset.coe_eq_coe]
  exact perm_append_comm

/-! ## Runs -/

/-- The rename stage, the mappings right after each rename that was not squashed, and the latest sequence
    number that was committed. -/
structure RenameRun where
  stage : RenameStage
  trail : List (Nat × (PhysClass → Nat → Nat))
  committed : Nat

/-- What the other stages ask for. -/
inductive RenameAct where
  | rename (seqNum : Nat) (dest : ArchReg)
  | commit (seqNum : Nat)
  | squash (seqNum : Nat)
  deriving DecidableEq, Repr

namespace RenameRun

/-- A thread that has not renamed anything. -/
def start (s : RenameStage) : RenameRun := ⟨s, [], 0⟩

def step (p : RenameParams) (s : RenameRun) : RenameAct → Option RenameRun
  | .rename seqNum dest =>
    (s.stage.renameDest p seqNum dest).map fun t =>
      ⟨t, (seqNum, t.map) :: s.trail, s.committed⟩
  | .commit seqNum =>
    (s.stage.removeFromHistory p seqNum).map fun t => ⟨t, s.trail, max s.committed seqNum⟩
  | .squash seqNum =>
    (s.stage.doSquash p seqNum).map fun t =>
      ⟨t, s.trail.dropWhile fun x => seqNum < x.1, s.committed⟩

/-- A rename is of a register of the ISA and finds a free register; what is committed is not squashed. -/
def Legal (p : RenameParams) (s : RenameRun) : RenameAct → Prop
  | .rename _ dest => dest.InRange p ∧ s.stage.HasFree p dest
  | .commit _ => True
  | .squash seqNum => s.committed ≤ seqNum

/-- No zero register is renamed away from home. -/
def ZeroHome (p : RenameParams) (s : RenameRun) : RenameAct → Prop
  | .rename _ dest => s.stage.ZeroHome p dest
  | _ => True

instance (p : RenameParams) (s : RenameRun) (a : RenameAct) : Decidable (s.Legal p a) :=
  match a with
  | .rename _ _ => inferInstanceAs (Decidable (_ ∧ _))
  | .commit _ => isTrue trivial
  | .squash _ => inferInstanceAs (Decidable (_ ≤ _))

instance (p : RenameParams) (s : RenameRun) (a : RenameAct) : Decidable (s.ZeroHome p a) :=
  match a with
  | .rename _ dest => inferInstanceAs (Decidable (s.stage.ZeroHome p dest))
  | .commit _ | .squash _ => isTrue trivial

/-- Every physical register is in one place; the history leads back along the trail; and what is behind
    the history has been committed. -/
structure Safe (p : RenameParams) (m₀ : PhysClass → Nat → Nat) (s : RenameRun) : Prop where
  whole : Whole p s.stage s.stage.historyBuffer
  tracks : Tracks p m₀ s.stage.map s.stage.historyBuffer s.trail
  old : ∀ x ∈ s.trail.drop s.stage.historyBuffer.length, x.1 ≤ s.committed

variable {s s' : RenameRun}

theorem classed_of_tracks : ∀ {hs : List RenameHistory} {map : PhysClass → Nat → Nat}
    {trail : List (Nat × (PhysClass → Nat → Nat))}, Tracks p m₀ map hs trail → ∀ h ∈ hs, Classed p h := by
  intro hs
  induction hs with
  | nil =>
    intro map trail _
    exact forall_mem_nil _
  | cons h hs ih =>
    intro map trail htracks
    cases trail with
    | nil => exact htracks.elim
    | cons x trail =>
      obtain ⟨-, -, hgood, hrest⟩ := htracks
      refine forall_mem_cons.mpr ⟨fun hne => ?_, ih hrest⟩
      obtain ⟨c, -, -, -, -, -, hprev⟩ := hgood hne
      exact ⟨c, hprev⟩

theorem Safe.rename (hw : p.WellFormed) (h : s.Safe p m₀) {seqNum : Nat} {dest : ArchReg}
    (hleg : s.Legal p (.rename seqNum dest)) (hzero : s.ZeroHome p (.rename seqNum dest)) :
    ∃ s', s.step p (.rename seqNum dest) = some s' ∧ s'.Safe p m₀ := by
  obtain ⟨t, e, ht, rfl, hhist, hundo, hgood, hpool⟩ :=
    renameDest_spec hw h.whole rfl hleg.1 hleg.2 hzero seqNum
  refine ⟨_, congrArg (Option.map _) ht, ?_, ?_, ?_⟩
  · intro c
    show pool p t t.historyBuffer c = _
    rw [hhist, hpool c, h.whole c]
  · show Tracks p m₀ t.map t.historyBuffer _
    rw [hhist]
    exact h.tracks.push hundo hgood
  · show ∀ x ∈ drop t.historyBuffer.length ((e.instSeqNum, t.map) :: s.trail), _
    rw [hhist]
    exact h.old

theorem Safe.commit (h : s.Safe p m₀) (seqNum : Nat) : ∃ s', s.step p (.commit seqNum) = some s' ∧ s'.Safe p m₀ := by
  have hclass : ∀ e ∈ s.stage.historyBuffer.reverse, Classed p e := by
    intro e he
    exact classed_of_tracks h.tracks e (mem_reverse.mp he)
  obtain ⟨t, ht, hmap, hhist, hpool⟩ := commitLoop_spec (n := seqNum) (s := s.stage) hclass
  -- the history is what is kept, followed by what is dropped
  have hsplit : s.stage.historyBuffer = t.historyBuffer ++
      (s.stage.historyBuffer.reverse.takeWhile fun e => e.instSeqNum ≤ seqNum).reverse := by
    rw [hhist, ← reverse_append, takeWhile_append_dropWhile, reverse_reverse]
  have htracks := h.tracks
  rw [hsplit] at htracks
  refine ⟨_, congrArg (Option.map _) ht, ?_, ?_, ?_⟩
  · intro c
    show pool p t t.historyBuffer c = _
    rw [hpool c, pool_reverse, h.whole c]
  · show Tracks p m₀ t.map t.historyBuffer s.trail
    rw [hmap]
    exact htracks.drop_old
  · intro x hx
    show x.1 ≤ max s.committed seqNum
    rcases htracks.mem_drop hx with ⟨e, he, hstamp⟩ | hx
    · have hle := mem_takeWhile_imp (mem_reverse.mp he)
      rw [decide_eq_true_eq] at hle
      omega
    · rw [← hsplit] at hx
      have := h.old x hx
      omega

theorem Safe.squash (hw : p.WellFormed) (h : s.Safe p m₀) {seqNum : Nat} (hleg : s.Legal p (.squash seqNum)) :
    ∃ s', s.step p (.squash seqNum) = some s' ∧ s'.Safe p m₀ ∧ s'.stage.map = stateAt m₀ s.trail seqNum := by
  obtain ⟨t, ht, hmap, hhist, hpool⟩ := squashLoop_spec (n := seqNum) hw h.tracks
  have hold : ∀ x ∈ s.trail.drop s.stage.historyBuffer.length, x.1 ≤ seqNum := by
    intro x hx
    exact (h.old x hx).trans hleg
  obtain ⟨hat, htracks, hdrop⟩ := h.tracks.rollback hold
  refine ⟨_, congrArg (Option.map _) ht, ⟨?_, ?_, ?_⟩, ?_⟩
  · intro c
    show pool p t t.historyBuffer c = _
    rw [hpool c, h.whole c]
  · show Tracks p m₀ t.map t.historyBuffer _
    rw [hmap, hhist]
    exact htracks
  · show ∀ x ∈ drop t.historyBuffer.length _, _
    rw [hhist, hdrop]
    exact h.old
  · show t.map = _
    rw [hmap, hat]

/-- **One step**: it goes through, and keeps every register in its place. -/
theorem Safe.step (hw : p.WellFormed) (h : s.Safe p m₀) {a : RenameAct} (hleg : s.Legal p a)
    (hzero : s.ZeroHome p a) : ∃ s', s.step p a = some s' ∧ s'.Safe p m₀ := by
  cases a with
  | rename seqNum dest => exact h.rename hw hleg hzero
  | commit seqNum => exact h.commit seqNum
  | squash seqNum =>
    obtain ⟨s', hs', hsafe, -⟩ := h.squash hw hleg
    exact ⟨s', hs', hsafe⟩

theorem zeroHome_of_step {a : RenameAct} (h : s.step p a = some s') : s.ZeroHome p a := by
  cases a with
  | rename seqNum dest =>
    obtain ⟨t, ht, -⟩ := map_eq_some_iff.mp h
    exact zeroHome_of_renameDest ht
  | commit seqNum | squash seqNum => trivial

/-- **No register is lost or duplicated, and a squash restores the mapping.**  From any map of distinct
    registers and free lists with all others, in every state of every run in which no zero register is
    renamed away from home: free list, mapping and previous registers of a class are together all of its
    physical registers, each once; a legal step goes through exactly if it renames no zero register away
    from home; and after a squash to `n` the mapping is the one right after the last rename with a number of
    at most `n` that was not squashed before, or the first one. -/
theorem registers_conserved (hw : p.WellFormed) {s₀ : RenameStage} (hhist : s₀.historyBuffer = [])
    (hwhole : Whole p s₀ []) {as : List RenameAct}
    (h : Run (Guarded (stepOf (RenameRun.step p)) fun s a => s.Legal p a ∧ s.ZeroHome p a) (start s₀) as s) :
    (∀ c, pool p s.stage s.stage.historyBuffer c = allRegs p c) ∧
      (∀ a, s.Legal p a → ((∃ s', s.step p a = some s') ↔ s.ZeroHome p a)) ∧
      ∀ n s', s.Legal p (.squash n) → s.step p (.squash n) = some s' → s'.stage.map = stateAt s₀.map s.trail n := by
  have hstart : (start s₀).Safe p s₀.map := by
    refine ⟨?_, ?_, ?_⟩
    · show Whole p s₀ s₀.historyBuffer
      rw [hhist]
      exact hwhole
    · show Tracks p s₀.map s₀.map s₀.historyBuffer []
      rw [hhist]
      rfl
    · intro x hx
      simp [start] at hx
  have hsafe : s.Safe p s₀.map := by
    refine h.inv ?_ hstart
    rintro s a s' hs ⟨hstep, hleg, hzero⟩
    obtain ⟨s'', hs'', hs'⟩ := hs.step hw hleg hzero
    cases hs''.symm.trans hstep
    exact hs'
  refine ⟨hsafe.whole, ?_, ?_⟩
  · intro a hleg
    constructor
    · rintro ⟨s', hs'⟩
      exact zeroHome_of_step hs'
    · intro hzero
      obtain ⟨s', hs', -⟩ := hsafe.step hw hleg hzero
      exact ⟨s', hs'⟩
  · intro n s' hleg hstep
    obtain ⟨s'', hs'', -, hmap⟩ := hsafe.squash hw hleg
    cases hs''.symm.trans hstep
    exact hmap

/-- The registers of Alpha, with the sizes of the register file that are the default. -/
def alpha : RenameParams where
  numPhys := fun
    | .int => 256
    | .float => 256
    | .cc => 0
  numArch := fun
    | .int => 40
    | .float => 32
    | .cc => 0
  fpRegBase := 40
  ccRegBase := 72
  miscRegBase := 72
  maxRegIndex := 225
  zeroReg := fun
    | .int => 31
    | .float => 31
    | .cc => 0

theorem alpha_wellFormed : alpha.WellFormed := by
  constructor <;> decide

theorem alpha_whole : Whole alpha (.initial alpha) [] := by
  apply whole_initial
  intro c
  cases c <;> decide

/-- A register is renamed twice, with a misc register and the zero register of the integers in between,
    and the second rename is squashed after the first has been committed. -/
def renamedTwice : List RenameAct :=
  [.rename 1 (.reg .int 5), .rename 2 (.misc 3), .rename 2 (.reg .int 31), .rename 3 (.reg .int 5),
    .commit 1, .squash 2]

theorem registers_conserved_renamed_twice :
    ∃ s, exec (guardFn (RenameRun.step alpha) fun s a => s.Legal alpha a ∧ s.ZeroHome alpha a)
        (start (.initial alpha)) renamedTwice = some s ∧
      (∀ c, pool alpha s.stage s.stage.historyBuffer c = allRegs alpha c) ∧
      s.stage.map .int 5 = 40 ∧ s.stage.historyBuffer.length = 2 := by
  refine exec_observe (fun s => (s.stage.map .int 5, s.stage.historyBuffer.length))
    (40, 2) (by decide +kernel) fun s hs hd => ?_
  have hrun := exec_guardFn_iff.mp hs
  exact ⟨(registers_conserved alpha_wellFormed rfl alpha_whole hrun).1, congrArg Prod.fst hd,
    congrArg Prod.snd hd⟩

/-- **The zero register of the floats is never at home**: renaming it fails the assertion that its previous
    physical register is its architectural index, in the state that the constructors leave. -/
theorem float_zero_register_not_renamed : alpha.WellFormed ∧ Whole alpha (.initial alpha) [] ∧
      (start (.initial alpha)).Legal alpha (.rename 1 (.reg .float 31)) ∧
      (start (.initial alpha)).step alpha (.rename 1 (.reg .float 31)) = none := by
  refine ⟨alpha_wellFormed, alpha_whole, ?_, ?_⟩
  · decide
  · rfl

end RenameRun

end NvpSim.Cpu
