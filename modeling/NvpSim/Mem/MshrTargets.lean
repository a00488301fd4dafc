/-
  The targets of one MSHR: in what order they are answered, and what the flags of the lists say.

  The system is one register with what the cache does to it.  The register's methods are steps of their own, so
  that a snoop or a new target may come between any two of them; only the end of `recvTimingResp` is one step.
  The ORDER is kept by everything: a target is deferred as long as there is a deferred one, and that list moves
  as a whole (`Ordered`).

  But `getBusPacket` passes the shared mark of the FIRST target on to the request, also to one for an exclusive
  copy, and the mark stays on the response: the block is filled as shared, and the target that needs it
  exclusively is answered all the same.
-/
import NvpSim.Lib.Run
import NvpSim.Mem.Mshr

namespace NvpSim.Mem

open NvpSim.Sim NvpSim.Lib List Option

/-! ## The system -/

/-- What happens to a register. -/
inductive MshrAct where
  | allocate (blkAddr : Addr) (blkSize : Nat) (pkt : MissPacket) (whenReady : Tick) (order : Nat)
  | allocateTarget (pkt : MissPacket) (whenReady : Tick) (order : Nat)
  | snoop (curTick : Tick) (pkt : MissPacket) (order : Nat)
  | markInService (isForward busShared pendingDirtyResp : Bool)
  | fill (shared : Bool)
  | fillOwn
  | pop
  | finish (curTick : Tick)
  | markDownstream
  | clearDownstream

/-- The ids of the targets that wait for the block. -/
def ids (l : List Target) : List Nat := (l.filter Target.waits).map (·.pkt.id)

/-- A register; whether it is in use; the shared mark of its request; whether its block has been
    filled, and exclusively; the ids of all targets, and of those that have been popped. -/
structure MshrSys where
  mshr : Mshr
  inUse : Bool
  busShared : Bool
  filled : Bool
  exclusive : Bool
  allocated : List Nat
  popped : List Nat

namespace MshrSys

def start : MshrSys := ⟨.new, false, false, false, false, [], []⟩

/-- The register is given back. -/
def free (s : MshrSys) : Option MshrSys :=
  s.mshr.deallocate.map fun m => { s with mshr := m, inUse := false }

/-- The block is filled. -/
def fill (s : MshrSys) (shared : Bool) : Option MshrSys :=
  (s.mshr.handleFill shared).map fun m =>
    { s with mshr := m, filled := true, exclusive := s.exclusive || !shared }

/-- The first target is popped. -/
def pop (s : MshrSys) : MshrSys :=
  { s with mshr := s.mshr.popTarget, popped := s.popped ++ ids (s.mshr.targets.list.take 1) }

/-- One step.  `markInService` is told whether the request is forwarded as it is, whether it has been
    marked as shared by the time it is sent, and whether a dirty response is pending; `fillOwn` is the
    fill that a WriteInvalidate does with its own packet; `finish` is the end of `recvTimingResp`. -/
def step (s : MshrSys) : MshrAct → Option MshrSys
  | .allocate blkAddr blkSize pkt whenReady order =>
    (s.mshr.allocate blkAddr blkSize pkt whenReady order).map fun m =>
      { s with mshr := m, inUse := true, allocated := s.allocated ++ [pkt.id] }
  | .allocateTarget pkt whenReady order =>
    (s.mshr.allocateTarget pkt whenReady order).map fun m =>
      { s with mshr := m, allocated := s.allocated ++ [pkt.id] }
  | .snoop curTick pkt order => some { s with mshr := (s.mshr.handleSnoop curTick pkt order).1 }
  | .markInService isForward busShared pendingDirtyResp =>
    ({ s.mshr with isForward := isForward }.markInService pendingDirtyResp).bind fun r =>
      if r.2 then
        { s with mshr := r.1, popped := s.popped ++ ids (s.mshr.targets.list.take 1) }.free
      else
        some { s with mshr := r.1, busShared := busShared, filled := false, exclusive := false }
  | .fill shared => s.fill shared
  | .fillOwn => s.mshr.targets.list.head?.bind fun t => s.fill t.pkt.sharedAsserted
  | .pop => some s.pop
  | .finish curTick => (s.mshr.promoteDeferredTargets curTick).bind fun r =>
      if r.2 then some { s with mshr := { r.1 with inService := false } }
      else { s with mshr := r.1 }.free
  | .markDownstream => some { s with mshr := { s.mshr with downstreamPending := true } }
  | .clearDownstream => s.mshr.clearDownstreamPending.map fun m => { s with mshr := m }

/-- The first target. -/
def front (s : MshrSys) : Option Target := s.mshr.targets.list.head?

/-- What the cache does: it allocates free registers for requests, adds targets and snoops while the
    register is in use, and fills and pops while it is in service.  The request carries the shared
    mark if the first target does; otherwise other caches have marked it, which they do only if it
    does not need exclusivity, or is the upward snoop of a prefetch.  A dirty response is pending
    only if there is no mark.  A response to a request for an exclusive copy, or from the owner of
    a dirty one, is shared only if the request was marked. -/
def Legal (s : MshrSys) : MshrAct → Prop
  | .allocate _ _ pkt _ _ => s.inUse = false ∧ pkt.cmd.isRequest = true
  | .allocateTarget pkt _ _ => s.inUse = true ∧ pkt.cmd.isRequest = true
  | .snoop _ _ _ => s.inUse = true
  | .markInService isForward busShared pendingDirtyResp =>
    s.inUse = true ∧ (pendingDirtyResp = true → busShared = false) ∧
      (isForward = false → ∀ t ∈ s.front, t.pkt.sharedAsserted = true → busShared = true) ∧
      (busShared = true → s.mshr.targets.needsExclusive = true →
        ∀ t ∈ s.front, t.pkt.sharedAsserted = true ∨ t.source = .fromPrefetcher)
  | .fill shared =>
    s.inUse = true ∧ s.mshr.inService = true ∧ s.mshr.isForward = false ∧
      (shared = true → s.mshr.pendingDirty = true → s.busShared = true)
  | .fillOwn =>
    s.inUse = true ∧ s.mshr.inService = true ∧ ∀ t ∈ s.front, t.source = .fromCPU ∧ t.pkt.cmd.isWriteInvalidate = true
  | .pop => s.inUse = true ∧ s.mshr.inService = true ∧ s.mshr.targets.list ≠ []
  | .finish _ => s.inUse = true ∧ s.mshr.inService = true
  | .markDownstream => s.inUse = true ∧ s.mshr.downstreamPending = false
  | .clearDownstream => s.inUse = true

instance (s : MshrSys) (a : MshrAct) : Decidable (s.Legal a) :=
  match a with
  | .allocate .. | .allocateTarget .. | .markDownstream | .finish .. =>
    inferInstanceAs (Decidable (_ ∧ _))
  | .snoop .. | .clearDownstream => inferInstanceAs (Decidable (_ = _))
  | .markInService isForward busShared _ =>
    inferInstanceAs (Decidable (_ ∧ (_ → _) ∧
      (isForward = false → ∀ t ∈ s.front, t.pkt.sharedAsserted = true → busShared = true) ∧
      (_ → _ → ∀ t ∈ s.front, t.pkt.sharedAsserted = true ∨ t.source = .fromPrefetcher)))
  | .fill _ => inferInstanceAs (Decidable (_ ∧ _ ∧ _ ∧ (_ → _ → _)))
  | .fillOwn => inferInstanceAs (Decidable (_ ∧ _ ∧
      ∀ t ∈ s.front, t.source = .fromCPU ∧ t.pkt.cmd.isWriteInvalidate = true))
  | .pop => inferInstanceAs (Decidable (_ ∧ _ ∧ _))

/-- A request for an exclusive copy is not marked as shared, nor is a packet that fills the block by
    itself. -/
def Unmarked (s : MshrSys) : MshrAct → Prop
  | .markInService _ busShared _ => ¬ (s.mshr.targets.needsExclusive = true ∧ busShared = true)
  | .fillOwn => ∀ t ∈ s.front, t.pkt.sharedAsserted = false
  | _ => True

instance (s : MshrSys) (a : MshrAct) : Decidable (s.Unmarked a) :=
  match a with
  | .markInService .. => inferInstanceAs (Decidable (¬ _))
  | .fillOwn => inferInstanceAs (Decidable (∀ t ∈ s.front, t.pkt.sharedAsserted = false))
  | .allocate .. | .allocateTarget .. | .snoop .. | .fill .. | .pop | .finish .. |
    .markDownstream | .clearDownstream => isTrue trivial

/-- The block has been filled, but only as shared. -/
def OnlyShared (s : MshrSys) : Prop := s.filled = true ∧ s.exclusive = false

end MshrSys

/-! ## What the operations do to a list -/

theorem ids_append (l l' : List Target) : ids (l ++ l') = ids l ++ ids l' := by
  unfold ids
  rw [filter_append, map_append]

theorem ids_take_tail (l : List Target) : ids (l.take 1) ++ ids l.tail = ids l := by
  cases l with
  | nil => rfl
  | cons t l => exact (ids_append [t] l).symm

theorem replaceUpgrade_needsExclusive (pkt : MissPacket) :
    (replaceUpgrade pkt).cmd.needsExclusive = pkt.cmd.needsExclusive := by
  show pkt.cmd.replaced.needsExclusive = _
  cases pkt.cmd <;> rfl

theorem replaceUpgrade_isRequest (pkt : MissPacket) : (replaceUpgrade pkt).cmd.isRequest = pkt.cmd.isRequest := by
  show pkt.cmd.replaced.isRequest = _
  cases pkt.cmd <;> rfl

theorem replaceUpgrade_not_upgrade {pkt : MissPacket} (h : pkt.cmd.isRequest = true) :
    (replaceUpgrade pkt).cmd.isUpgradeTarget = false := by
  show pkt.cmd.replaced.isUpgradeTarget = false
  revert h
  cases pkt.cmd <;> decide

namespace TargetList

variable {l : TargetList} {pkt : MissPacket} {readyTime : Tick} {order : Nat} {source : Source} {pending : Bool}

@[simp] theorem add_list : (l.add pkt readyTime order source pending).list =
      l.list ++ [⟨readyTime, order, pkt, source, pending⟩] := by
  unfold add
  split <;> rfl

theorem ids_replaceUpgrades : ids l.replaceUpgrades.list = ids l.list := by
  unfold replaceUpgrades
  split
  · unfold ids
    rw [List.filter_map, List.map_map]
    rfl
  · rfl

/-- The flag is set if the command of a target that waits is of the kind `p`. -/
def Marks (l : TargetList) (p : MemCmd → Bool) (flag : Bool) : Prop :=
  ∀ t ∈ l.list, t.waits = true → p t.pkt.cmd = true → flag = true

/-- `needsExclusive` is set if a target that waits needs exclusivity. -/
def Excl (l : TargetList) : Prop := l.Marks MemCmd.needsExclusive l.needsExclusive

theorem add_flags (hne : source ≠ .fromSnoop) : (l.add pkt readyTime order source pending).needsExclusive =
        (l.needsExclusive || pkt.cmd.needsExclusive) ∧ (l.add pkt readyTime order source pending).hasUpgrade =
        (l.hasUpgrade || pkt.cmd.isUpgradeTarget) := by
  unfold TargetList.add
  rw [if_pos hne]
  exact ⟨rfl, rfl⟩

theorem flags_add : (l.needsExclusive = true → (l.add pkt readyTime order source pending).needsExclusive = true) ∧
      (l.hasUpgrade = true → (l.add pkt readyTime order source pending).hasUpgrade = true) := by
  by_cases hne : source = .fromSnoop
  · subst hne
    exact ⟨id, id⟩
  · rw [(add_flags hne).1, (add_flags hne).2]
    exact ⟨fun h => by rw [h, Bool.true_or], fun h => by rw [h, Bool.true_or]⟩

theorem Marks.add {p : MemCmd → Bool} {flag flag' : Bool} (h : l.Marks p flag) (hold : flag = true → flag' = true)
    (hnew : source ≠ .fromSnoop → p pkt.cmd = true → flag' = true) :
    (l.add pkt readyTime order source pending).Marks p flag' := by
  intro t ht hwaits hp
  rw [add_list, mem_append, mem_singleton] at ht
  rcases ht with ht | rfl
  · exact hold (h t ht hwaits hp)
  · exact hnew (of_decide_eq_true hwaits) hp

theorem Excl.add (h : l.Excl) : (l.add pkt readyTime order source pending).Excl :=
  Marks.add h flags_add.1 fun hne hexcl => by rw [(add_flags hne).1, hexcl, Bool.or_true]

theorem mem_replaceUpgrades {t : Target} (ht : t ∈ l.replaceUpgrades.list) : ∃ t' ∈ l.list, t.waits = t'.waits ∧
      t.pkt.cmd.needsExclusive = t'.pkt.cmd.needsExclusive ∧ t.pkt.cmd.isRequest = t'.pkt.cmd.isRequest := by
  unfold TargetList.replaceUpgrades at ht
  split at ht
  · obtain ⟨t', ht', rfl⟩ := List.mem_map.mp ht
    exact ⟨t', ht', rfl, replaceUpgrade_needsExclusive t'.pkt, replaceUpgrade_isRequest t'.pkt⟩
  · exact ⟨t, ht, rfl, rfl, rfl⟩

theorem replaceUpgrades_needsExclusive : l.replaceUpgrades.needsExclusive = l.needsExclusive := by
  unfold TargetList.replaceUpgrades
  split <;> rfl

theorem Excl.replaceUpgrades (h : l.Excl) : l.replaceUpgrades.Excl := by
  intro t ht hwaits hexcl
  obtain ⟨t', ht', hw, he, -⟩ := mem_replaceUpgrades ht
  rw [replaceUpgrades_needsExclusive]
  exact h t' ht' (hw ▸ hwaits) (he ▸ hexcl)

end TargetList

namespace Mshr

variable {m : Mshr} {t : Tick} {pkt : MissPacket} {o : Nat}

theorem snoopAfter_cases (m : Mshr) (t : Tick) (pkt : MissPacket) (o : Nat) :
    ((m.snoopAfter t pkt o).1.inService = m.inService ∧ (m.snoopAfter t pkt o).1.pendingDirty = m.pendingDirty ∧
      (m.snoopAfter t pkt o).1.deferredTargets = m.deferredTargets) ∧ ((m.snoopAfter t pkt o).1.targets = m.targets ∨
      ∃ b, (m.snoopAfter t pkt o).1.targets = m.targets.add (copyOf pkt) t o .fromSnoop b) := by
  have hsave : ((m.saveSnoop t pkt o).1.inService = m.inService ∧
      (m.saveSnoop t pkt o).1.pendingDirty = m.pendingDirty ∧
      (m.saveSnoop t pkt o).1.deferredTargets = m.deferredTargets) ∧ ((m.saveSnoop t pkt o).1.targets = m.targets ∨
        ∃ b, (m.saveSnoop t pkt o).1.targets = m.targets.add (copyOf pkt) t o .fromSnoop b) := by
    unfold saveSnoop
    split
    · exact ⟨⟨rfl, rfl, rfl⟩, Or.inr ⟨_, rfl⟩⟩
    · exact ⟨⟨rfl, rfl, rfl⟩, Or.inl rfl⟩
  unfold snoopAfter
  split
  · exact ⟨⟨rfl, rfl, rfl⟩, Or.inl rfl⟩
  · split
    · exact hsave
    · exact hsave

theorem replaceDeferred_cases (m : Mshr) (pkt : MissPacket) : (m.replaceDeferred pkt).inService = m.inService ∧
      (m.replaceDeferred pkt).pendingDirty = m.pendingDirty ∧ (m.replaceDeferred pkt).targets = m.targets ∧
      ((m.replaceDeferred pkt).deferredTargets = m.deferredTargets ∨
        (m.replaceDeferred pkt).deferredTargets = m.deferredTargets.replaceUpgrades) := by
  unfold replaceDeferred
  split
  · exact ⟨rfl, rfl, rfl, Or.inr rfl⟩
  · exact ⟨rfl, rfl, rfl, Or.inl rfl⟩

/-- **What a snoop does**: it replaces upgrades, or is saved. -/
theorem handleSnoop_cases (m : Mshr) (t : Tick) (pkt : MissPacket) (o : Nat) :
    ((m.handleSnoop t pkt o).1.inService = m.inService ∧ (m.handleSnoop t pkt o).1.pendingDirty = m.pendingDirty) ∧
    ((m.handleSnoop t pkt o).1.deferredTargets = m.deferredTargets ∨
      (m.handleSnoop t pkt o).1.deferredTargets = m.deferredTargets.replaceUpgrades) ∧
    ((m.handleSnoop t pkt o).1.targets = m.targets ∨ (m.handleSnoop t pkt o).1.targets = m.targets.replaceUpgrades ∨
      ∃ b, (m.handleSnoop t pkt o).1.targets = m.targets.add (copyOf pkt) t o .fromSnoop b) := by
  unfold handleSnoop
  split
  · split
    · exact ⟨⟨rfl, rfl⟩, Or.inr rfl, Or.inr (Or.inl rfl)⟩
    · exact ⟨⟨rfl, rfl⟩, Or.inl rfl, Or.inl rfl⟩
  · obtain ⟨hservice, hdirty, htargets, hdeferred⟩ := replaceDeferred_cases m pkt
    obtain ⟨⟨hservice', hdirty', hdeferred'⟩, htargets'⟩ :=
      snoopAfter_cases (m.replaceDeferred pkt) t pkt o
    rw [htargets] at htargets'
    refine ⟨⟨hservice'.trans hservice, hdirty'.trans hdirty⟩, ?_, htargets'.imp_right Or.inr⟩
    exact hdeferred.imp hdeferred'.trans hdeferred'.trans

variable {m' : Mshr}

/-- **What a new target does**: it is deferred, or it is added to a list behind which nothing waits,
    and if it needs exclusivity then that is on its way. -/
theorem allocateTarget_cases {whenReady : Tick} {order : Nat} (h : m.allocateTarget pkt whenReady order = some m') :
    (m.inService = true ∧ ∃ pkt', (pkt' = pkt ∨ pkt' = replaceUpgrade pkt) ∧
      m' = { m with deferredTargets := m.deferredTargets.add pkt' whenReady order .fromCPU true }) ∨
    ((m.inService = true → m.deferredTargets.list = [] ∧ (pkt.cmd.needsExclusive = true → m.pendingDirty = true)) ∧
      m' = { m with targets := m.targets.add pkt whenReady order .fromCPU (!m.inService) }) := by
  obtain ⟨-, h⟩ := ite_none_left_eq_some.mp h
  split at h
  · rename_i hdefer
    unfold defers at hdefer
    rw [Bool.and_eq_true] at hdefer
    cases h
    refine Or.inl ⟨hdefer.1, _, ?_, rfl⟩
    cases m.postInvalidate with
    | true => exact Or.inr rfl
    | false => exact Or.inl rfl
  · rename_i hdefer
    cases h
    refine Or.inr ⟨fun hservice => ?_, rfl⟩
    unfold defers at hdefer
    rw [hservice, Bool.true_and] at hdefer
    simp only [Bool.or_eq_true, Bool.not_eq_true', Bool.and_eq_true, not_or, Bool.not_eq_false,
      List.isEmpty_iff] at hdefer
    refine ⟨hdefer.1.1, fun hexcl => ?_⟩
    by_contra hclean
    exact hdefer.2 ⟨hexcl, Or.inl (Or.inl (Bool.eq_false_iff.mpr hclean))⟩

/-- **What a fill does**: nothing, or an exclusive one moves the deferred targets up. -/
theorem handleFill_cases {shared : Bool} (h : m.handleFill shared = some m') :
    m' = m ∨ (shared = false ∧ m.movesUp = true ∧ m' = { m with
        targets := { m.targets with
          list := m.targets.list ++ m.deferredTargets.list
          needsExclusive := true }
        deferredTargets := .new }) := by
  unfold handleFill at h
  cases shared with
  | true =>
    cases h
    exact Or.inl rfl
  | false =>
    obtain ⟨-, h⟩ := ite_none_left_eq_some.mp h
    split at h
    · rename_i hmoves
      obtain ⟨-, h⟩ := ite_none_left_eq_some.mp h
      cases h
      exact Or.inr ⟨rfl, hmoves, rfl⟩
    · cases h
      exact Or.inl rfl

/-- **What a promotion does.** -/
theorem promoteDeferredTargets_cases {any : Bool} (h : m.promoteDeferredTargets t = some (m', any)) :
    m.targets.list = [] ∧ ((any = false ∧ m.deferredTargets.list = [] ∧ m' = m) ∨
       (any = true ∧ m'.targets = m.deferredTargets ∧ m'.deferredTargets = .new)) := by
  obtain ⟨hempty, h⟩ := ite_none_right_eq_some.mp h
  have hnil := List.isEmpty_iff.mp hempty
  refine ⟨hnil, ?_⟩
  split at h
  · rename_i hnone
    cases h
    exact Or.inl ⟨rfl, hnone, rfl⟩
  · cases h
    refine Or.inr ⟨rfl, rfl, ?_⟩
    show TargetList.mk _ _ _ = _
    rw [hnil]
    rfl

/-- **What `markInService` does**: it drops a request that expects no response, or puts the
    register in service. -/
theorem markInService_cases {pendingDirtyResp dropped : Bool}
    (h : m.markInService pendingDirtyResp = some (m', dropped)) : m.inService = false ∧
      ((dropped = true ∧ m' = m.popTarget) ∨ (dropped = false ∧ m' = { m with
          inService := true
          pendingDirty := m.targets.needsExclusive || pendingDirtyResp
          postInvalidate := false
          postDowngrade := false })) := by
  obtain ⟨hidle, h⟩ := ite_none_left_eq_some.mp h
  refine ⟨Bool.eq_false_iff.mpr hidle, ?_⟩
  split at h
  · cases h
    exact Or.inl ⟨rfl, rfl⟩
  · cases h
    exact Or.inr ⟨rfl, rfl⟩

theorem clearDownstreamPending_cases (h : m.clearDownstreamPending = some m') :
    m' = { m with downstreamPending := false } := by
  obtain ⟨-, h⟩ := ite_none_right_eq_some.mp h
  exact (some.inj h).symm

theorem targets_of_deallocate (h : m.deallocate = some m') : m.targets.list = [] := by
  obtain ⟨hempty, h⟩ := ite_none_right_eq_some.mp h
  rw [Bool.and_eq_true] at hempty
  exact List.isEmpty_iff.mp hempty.1

theorem deallocate_cases (h : m.deallocate = some m') : m' = { m with targets := .new, inService := false } := by
  have hreset : m.targets.resetFlags = .new := by
    unfold TargetList.resetFlags
    rw [targets_of_deallocate h]
    rfl
  obtain ⟨-, h⟩ := ite_none_right_eq_some.mp h
  cases h
  rw [hreset]

end Mshr

/-! ## The order -/

namespace MshrSys

variable {s s' : MshrSys}

/-- The targets in the order of their allocation: those that have been popped, those on the list,
    those deferred.  Targets are deferred only while the register is in service. -/
structure Ordered (s : MshrSys) : Prop where
  order : s.allocated = s.popped ++ ids s.mshr.targets.list ++ ids s.mshr.deferredTargets.list
  deferred : s.mshr.inService = false → s.mshr.deferredTargets.list = []
  idle : s.inUse = false → s.mshr.inService = false

variable {pkt : MissPacket} {order : Nat} {pending shared : Bool} {a : MshrAct}

theorem ids_add {l : TargetList} {readyTime : Tick} {source : Source} (hne : source ≠ .fromSnoop) :
    ids (l.add pkt readyTime order source pending).list = ids l.list ++ [pkt.id] := by
  rw [TargetList.add_list, ids_append]
  congr 1
  have hwaits : Target.waits ⟨readyTime, order, pkt, source, pending⟩ = true := decide_eq_true hne
  unfold ids
  rw [filter_cons_of_pos hwaits]
  rfl

theorem ids_add_snoop {l : TargetList} {readyTime : Tick} :
    ids (l.add pkt readyTime order .fromSnoop pending).list = ids l.list := by
  rw [TargetList.add_list, ids_append]
  exact append_nil _

theorem Ordered.allocateTarget (h : s.Ordered) {whenReady : Tick}
    (hs : s.step (.allocateTarget pkt whenReady order) = some s') : s'.Ordered := by
  obtain ⟨m, hm, rfl⟩ := map_eq_some_iff.mp hs
  rcases Mshr.allocateTarget_cases hm with ⟨hservice, pkt', hid, rfl⟩ | ⟨hfree, rfl⟩
  · have hsame : pkt'.id = pkt.id := by rcases hid with rfl | rfl <;> rfl
    refine ⟨?_, fun hidle => ?_, h.idle⟩
    · show s.allocated ++ [pkt.id] = s.popped ++ ids s.mshr.targets.list ++
        ids (s.mshr.deferredTargets.add pkt' whenReady order .fromCPU true).list
      rw [ids_add (by decide), hsame, h.order, append_assoc _ _ [pkt.id]]
    · have hidle' : s.mshr.inService = false := hidle
      rw [hservice] at hidle'
      cases hidle'
  · have hnone : s.mshr.deferredTargets.list = [] := by
      cases hservice : s.mshr.inService with
      | false => exact h.deferred hservice
      | true => exact (hfree hservice).1
    refine ⟨?_, h.deferred, h.idle⟩
    show s.allocated ++ [pkt.id] = s.popped ++
      ids (s.mshr.targets.add pkt whenReady order .fromCPU (!s.mshr.inService)).list ++
      ids s.mshr.deferredTargets.list
    have horder := h.order
    rw [hnone] at horder ⊢
    rw [ids_add (by decide), horder]
    simp [ids]

theorem popped_order {a r : List Nat} {l : List Target} (h : a = s.popped ++ ids l ++ r) :
    a = s.popped ++ ids (l.take 1) ++ ids l.tail ++ r := by
  rw [h, ← ids_take_tail l]
  simp only [append_assoc]

theorem Ordered.free (horder : s.allocated = s.popped ++ ids s.mshr.targets.list ++ ids s.mshr.deferredTargets.list)
    (hdeferred : s.mshr.deferredTargets.list = []) (hs : s.free = some s') : s'.Ordered := by
  obtain ⟨m, hm, rfl⟩ := map_eq_some_iff.mp hs
  have hempty := Mshr.targets_of_deallocate hm
  cases Mshr.deallocate_cases hm
  rw [hempty] at horder
  exact ⟨horder, fun _ => hdeferred, fun _ => rfl⟩

theorem Ordered.fill (h : s.Ordered) (huse : s.inUse = true) (hs : s.fill shared = some s') : s'.Ordered := by
  obtain ⟨m, hm, rfl⟩ := map_eq_some_iff.mp hs
  rcases Mshr.handleFill_cases hm with rfl | ⟨-, -, rfl⟩
  · exact { h with }
  · refine ⟨?_, fun _ => rfl, fun hidle => ?_⟩
    · show s.allocated = s.popped ++ ids (s.mshr.targets.list ++ s.mshr.deferredTargets.list) ++ []
      rw [h.order, ids_append, append_nil, append_assoc]
    · have hidle' : s.inUse = false := hidle
      rw [huse] at hidle'
      cases hidle'

theorem Ordered.markInService (h : s.Ordered) {isForward busShared pendingDirtyResp : Bool} (huse : s.inUse = true)
    (hs : s.step (.markInService isForward busShared pendingDirtyResp) = some s') : s'.Ordered := by
  obtain ⟨⟨m, dropped⟩, hm, hnext⟩ := bind_eq_some_iff.mp hs
  obtain ⟨hidle, ⟨rfl, rfl⟩ | ⟨rfl, rfl⟩⟩ := Mshr.markInService_cases hm
  · refine Ordered.free ?_ ?_ hnext
    · exact popped_order h.order
    · exact h.deferred hidle
  · cases hnext
    refine ⟨h.order, nofun, fun hno => ?_⟩
    have hno' : s.inUse = false := hno
    rw [huse] at hno'
    cases hno'

theorem Ordered.finish (h : s.Ordered) {curTick : Tick} (hs : s.step (.finish curTick) = some s') : s'.Ordered := by
  obtain ⟨⟨m, any⟩, hm, hnext⟩ := bind_eq_some_iff.mp hs
  obtain ⟨hempty, ⟨rfl, hnone, rfl⟩ | ⟨rfl, htargets, hdeferred⟩⟩ :=
    Mshr.promoteDeferredTargets_cases hm
  · refine Ordered.free ?_ ?_ hnext
    · exact h.order
    · exact hnone
  · cases hnext
    have horder := h.order
    rw [hempty] at horder
    refine ⟨?_, fun _ => ?_, fun _ => rfl⟩
    · show s.allocated = s.popped ++ ids m.targets.list ++ ids m.deferredTargets.list
      rw [horder, htargets, hdeferred]
      simp [ids, TargetList.new]
    · show m.deferredTargets.list = []
      rw [hdeferred]
      rfl

/-- **Each step keeps the order.** -/
theorem Ordered.step (h : s.Ordered) (hleg : s.Legal a) (hs : s.step a = some s') : s'.Ordered := by
  cases a with
  | allocate blkAddr blkSize pkt whenReady order =>
    obtain ⟨m, hm, rfl⟩ := map_eq_some_iff.mp hs
    have hnone := h.deferred (h.idle hleg.1)
    obtain ⟨-, hm⟩ := ite_none_right_eq_some.mp hm
    cases hm
    refine ⟨?_, fun _ => hnone, nofun⟩
    have horder := h.order
    rw [hnone] at horder
    show s.allocated ++ [pkt.id] = s.popped ++ ids (s.mshr.targets.add pkt whenReady order
      (if pkt.cmd = .hardPFReq then .fromPrefetcher else .fromCPU) true).list ++ ids s.mshr.deferredTargets.list
    rw [ids_add (by split <;> decide), hnone, horder]
    simp [ids]
  | allocateTarget pkt whenReady order => exact h.allocateTarget hs
  | snoop curTick pkt order =>
    cases hs
    obtain ⟨⟨hservice, -⟩, hdeferred, htargets⟩ := s.mshr.handleSnoop_cases curTick pkt order
    have hids : ids (s.mshr.handleSnoop curTick pkt order).1.targets.list = ids s.mshr.targets.list := by
      rcases htargets with heq | heq | ⟨b, heq⟩ <;> rw [heq]
      · exact TargetList.ids_replaceUpgrades
      · exact ids_add_snoop
    have hids' : ids (s.mshr.handleSnoop curTick pkt order).1.deferredTargets.list =
        ids s.mshr.deferredTargets.list := by
      rcases hdeferred with heq | heq <;> rw [heq]
      exact TargetList.ids_replaceUpgrades
    refine ⟨?_, fun hidle => ?_, fun hidle => hservice.trans (h.idle hidle)⟩
    · show s.allocated = s.popped ++ _ ++ _
      rw [hids, hids']
      exact h.order
    · have hnone := h.deferred (hservice.symm.trans hidle)
      rcases hdeferred with heq | heq <;> show (Mshr.deferredTargets _).list = [] <;> rw [heq]
      · exact hnone
      · unfold TargetList.replaceUpgrades
        split
        · show List.map _ s.mshr.deferredTargets.list = []
          rw [hnone]
          rfl
        · exact hnone
  | markInService isForward busShared pendingDirtyResp => exact h.markInService hleg.1 hs
  | fill shared => exact h.fill hleg.1 hs
  | fillOwn =>
    obtain ⟨t, -, ht⟩ := bind_eq_some_iff.mp hs
    exact h.fill hleg.1 ht
  | pop =>
    cases hs
    exact ⟨popped_order h.order, h.deferred, h.idle⟩
  | finish curTick => exact h.finish hs
  | markDownstream =>
    cases hs
    exact { h with }
  | clearDownstream =>
    obtain ⟨m, hm, rfl⟩ := map_eq_some_iff.mp hs
    cases Mshr.clearDownstreamPending_cases hm
    exact { h with }

/-! ## Exclusivity -/

/-- The flags say which lists need exclusivity, and a target that needs it is on the list of a
    register in service only if it has been requested, is promised, or is there. -/
structure Entitled (s : MshrSys) : Prop where
  excl : s.mshr.targets.Excl
  deferredExcl : s.mshr.deferredTargets.Excl
  owned : s.mshr.inService = true → ∀ t ∈ s.mshr.targets.list, t.waits = true →
    t.pkt.cmd.needsExclusive = true → s.mshr.pendingDirty = true ∨ s.exclusive = true

theorem Entitled.free (hdeferred : s.mshr.deferredTargets.Excl) (hs : s.free = some s') : s'.Entitled := by
  obtain ⟨m, hm, rfl⟩ := map_eq_some_iff.mp hs
  cases Mshr.deallocate_cases hm
  exact ⟨fun t ht => (nomatch ht), hdeferred, nofun⟩

theorem Entitled.fill (h : s.Entitled) (hs : s.fill shared = some s') : s'.Entitled := by
  obtain ⟨m, hm, rfl⟩ := map_eq_some_iff.mp hs
  rcases Mshr.handleFill_cases hm with rfl | ⟨rfl, -, rfl⟩
  · refine ⟨h.excl, h.deferredExcl, fun hservice t ht hwaits hexcl => ?_⟩
    refine (h.owned hservice t ht hwaits hexcl).imp_right fun hhave => ?_
    show (s.exclusive || !shared) = true
    rw [hhave, Bool.true_or]
  · refine ⟨fun _ _ _ _ => rfl, fun t ht => (nomatch ht), fun _ _ _ _ _ => Or.inr ?_⟩
    show (s.exclusive || !false) = true
    rw [Bool.not_false, Bool.or_true]

/-- **Each step keeps the entitlement.** -/
theorem Entitled.step (h : s.Entitled) (hs : s.step a = some s') : s'.Entitled := by
  cases a with
  | allocate blkAddr blkSize pkt whenReady order =>
    obtain ⟨m, hm, rfl⟩ := map_eq_some_iff.mp hs
    obtain ⟨-, hm⟩ := ite_none_right_eq_some.mp hm
    cases hm
    exact ⟨h.excl.add, h.deferredExcl, nofun⟩
  | allocateTarget pkt whenReady order =>
    obtain ⟨m, hm, rfl⟩ := map_eq_some_iff.mp hs
    rcases Mshr.allocateTarget_cases hm with ⟨-, pkt', -, rfl⟩ | ⟨hfree, rfl⟩
    · exact ⟨h.excl, h.deferredExcl.add, h.owned⟩
    · refine ⟨h.excl.add, h.deferredExcl, fun hservice t ht hwaits hexcl => ?_⟩
      rw [TargetList.add_list, mem_append, mem_singleton] at ht
      rcases ht with ht | rfl
      · exact h.owned hservice t ht hwaits hexcl
      · exact Or.inl ((hfree hservice).2 hexcl)
  | snoop curTick pkt order =>
    cases hs
    obtain ⟨⟨hservice, hdirty⟩, hdeferred, htargets⟩ := s.mshr.handleSnoop_cases curTick pkt order
    refine ⟨?_, ?_, fun hserv t ht hwaits hexcl => ?_⟩
    · show TargetList.Excl (Mshr.targets _)
      rcases htargets with heq | heq | ⟨b, heq⟩ <;> rw [heq]
      · exact h.excl
      · exact h.excl.replaceUpgrades
      · exact h.excl.add
    · show TargetList.Excl (Mshr.deferredTargets _)
      rcases hdeferred with heq | heq <;> rw [heq]
      · exact h.deferredExcl
      · exact h.deferredExcl.replaceUpgrades
    · have hown := h.owned (hservice.symm.trans hserv)
      show (Mshr.pendingDirty _ = true) ∨ _
      rw [hdirty]
      rcases htargets with heq | heq | ⟨b, heq⟩ <;> rw [heq] at ht
      · exact hown t ht hwaits hexcl
      · obtain ⟨t', ht', hw, he, -⟩ := TargetList.mem_replaceUpgrades ht
        exact hown t' ht' (hw ▸ hwaits) (he ▸ hexcl)
      · rw [TargetList.add_list, mem_append, mem_singleton] at ht
        rcases ht with ht | rfl
        · exact hown t ht hwaits hexcl
        · cases hwaits
  | markInService isForward busShared pendingDirtyResp =>
    obtain ⟨⟨m, dropped⟩, hm, hnext⟩ := bind_eq_some_iff.mp hs
    obtain ⟨-, ⟨rfl, rfl⟩ | ⟨rfl, rfl⟩⟩ := Mshr.markInService_cases hm
    · refine Entitled.free ?_ hnext
      exact h.deferredExcl
    · cases hnext
      refine ⟨h.excl, h.deferredExcl, fun _ t ht hwaits hexcl => Or.inl ?_⟩
      show (s.mshr.targets.needsExclusive || pendingDirtyResp) = true
      rw [h.excl t ht hwaits hexcl, Bool.true_or]
  | fill shared => exact h.fill hs
  | fillOwn =>
    obtain ⟨t, -, ht⟩ := bind_eq_some_iff.mp hs
    exact h.fill ht
  | pop =>
    cases hs
    exact ⟨fun t ht => h.excl t (mem_of_mem_tail ht), h.deferredExcl,
      fun hservice t ht => h.owned hservice t (mem_of_mem_tail ht)⟩
  | finish curTick =>
    obtain ⟨⟨m, any⟩, hm, hnext⟩ := bind_eq_some_iff.mp hs
    obtain ⟨hempty, ⟨rfl, hnone, rfl⟩ | ⟨rfl, htargets, hdeferred⟩⟩ :=
      Mshr.promoteDeferredTargets_cases hm
    · exact Entitled.free h.deferredExcl hnext
    · cases hnext
      refine ⟨?_, ?_, nofun⟩
      · show m.targets.Excl
        rw [htargets]
        exact h.deferredExcl
      · show m.deferredTargets.Excl
        rw [hdeferred]
        exact fun t ht => (nomatch ht)
  | markDownstream =>
    cases hs
    exact { h with }
  | clearDownstream =>
    obtain ⟨m, hm, rfl⟩ := map_eq_some_iff.mp hs
    cases Mshr.clearDownstreamPending_cases hm
    exact { h with }

/-- While a dirty copy is pending, neither the request nor a fill is shared. -/
structure Promised (s : MshrSys) : Prop where
  bus : s.mshr.inService = true → s.busShared = true → s.mshr.pendingDirty = false
  fills : s.mshr.inService = true → s.OnlyShared → s.mshr.pendingDirty = false

theorem Promised.free (hs : s.free = some s') : s'.Promised := by
  obtain ⟨m, hm, rfl⟩ := map_eq_some_iff.mp hs
  cases Mshr.deallocate_cases hm
  exact ⟨nofun, nofun⟩

theorem Promised.fill (h : s.Promised) (hshared : shared = true → s.mshr.pendingDirty = false)
    (hs : s.fill shared = some s') : s'.Promised := by
  obtain ⟨m, hm, rfl⟩ := map_eq_some_iff.mp hs
  have hfills : (s.exclusive || !shared) = false → s.mshr.pendingDirty = false := fun hnot => by
    rw [Bool.or_eq_false_iff, Bool.not_eq_false'] at hnot
    exact hshared hnot.2
  rcases Mshr.handleFill_cases hm with rfl | ⟨-, -, rfl⟩
  · exact ⟨h.bus, fun _ honly => hfills honly.2⟩
  · exact ⟨h.bus, fun _ honly => hfills honly.2⟩

/-- **Each step that meets `Unmarked` keeps the promise.** -/
theorem Promised.step (h : s.Promised) (hleg : s.Legal a) (hun : s.Unmarked a)
    (hs : s.step a = some s') : s'.Promised := by
  cases a with
  | allocate blkAddr blkSize pkt whenReady order =>
    obtain ⟨m, hm, rfl⟩ := map_eq_some_iff.mp hs
    obtain ⟨-, hm⟩ := ite_none_right_eq_some.mp hm
    cases hm
    exact ⟨nofun, nofun⟩
  | allocateTarget pkt whenReady order =>
    obtain ⟨m, hm, rfl⟩ := map_eq_some_iff.mp hs
    rcases Mshr.allocateTarget_cases hm with ⟨-, pkt', -, rfl⟩ | ⟨-, rfl⟩
    · exact ⟨h.bus, h.fills⟩
    · exact ⟨h.bus, h.fills⟩
  | snoop curTick pkt order =>
    cases hs
    obtain ⟨⟨hservice, hdirty⟩, -⟩ := s.mshr.handleSnoop_cases curTick pkt order
    exact ⟨fun hserv hbus => hdirty.trans (h.bus (hservice.symm.trans hserv) hbus),
      fun hserv honly => hdirty.trans (h.fills (hservice.symm.trans hserv) honly)⟩
  | markInService isForward busShared pendingDirtyResp =>
    obtain ⟨⟨m, dropped⟩, hm, hnext⟩ := bind_eq_some_iff.mp hs
    obtain ⟨-, ⟨rfl, rfl⟩ | ⟨rfl, rfl⟩⟩ := Mshr.markInService_cases hm
    · exact Promised.free hnext
    · cases hnext
      refine ⟨fun _ hbus => ?_, fun _ honly => (nomatch honly.1)⟩
      have hbus' : busShared = true := hbus
      -- a request that is marked is not for an exclusive copy, and no dirty copy is on its way
      have hexcl : s.mshr.targets.needsExclusive = false :=
        Bool.eq_false_iff.mpr fun hexcl => hun ⟨hexcl, hbus'⟩
      have hresp : pendingDirtyResp = false := Bool.eq_false_iff.mpr fun hresp => by
        rw [hleg.2.1 hresp] at hbus'
        cases hbus'
      show (s.mshr.targets.needsExclusive || pendingDirtyResp) = false
      rw [hexcl, hresp, Bool.false_or]
  | fill shared =>
    refine h.fill (fun hshared => ?_) hs
    exact Bool.eq_false_iff.mpr fun hdirty => by
      have hclean := h.bus hleg.2.1 (hleg.2.2.2 hshared hdirty)
      rw [hdirty] at hclean
      cases hclean
  | fillOwn =>
    obtain ⟨t, ht, hfill⟩ := bind_eq_some_iff.mp hs
    refine h.fill (fun hshared => ?_) hfill
    rw [hun t ht] at hshared
    cases hshared
  | pop | markDownstream =>
    cases hs
    exact ⟨h.bus, h.fills⟩
  | finish curTick =>
    obtain ⟨⟨m, any⟩, hm, hnext⟩ := bind_eq_some_iff.mp hs
    obtain ⟨-, ⟨rfl, -, rfl⟩ | ⟨rfl, -, -⟩⟩ := Mshr.promoteDeferredTargets_cases hm
    · exact Promised.free hnext
    · cases hnext
      exact ⟨nofun, nofun⟩
  | clearDownstream =>
    obtain ⟨m, hm, rfl⟩ := map_eq_some_iff.mp hs
    cases Mshr.clearDownstreamPending_cases hm
    exact ⟨h.bus, h.fills⟩

theorem ordered_start : start.Ordered := ⟨rfl, fun _ => rfl, fun _ => rfl⟩

theorem entitled_start : start.Entitled :=
  ⟨fun _ ht => (nomatch ht), fun _ ht => (nomatch ht), nofun⟩

theorem promised_start : start.Promised := ⟨nofun, nofun⟩

theorem not_onlyShared (h : s.Entitled) (hp : s.Promised) (hservice : s.mshr.inService = true)
    {t : Target} (ht : t ∈ s.mshr.targets.list) (hwaits : t.waits = true)
    (hexcl : t.pkt.cmd.needsExclusive = true) : ¬ s.OnlyShared := by
  intro honly
  rcases h.owned hservice t ht hwaits hexcl with hdirty | hhave
  · rw [hp.fills hservice honly] at hdirty
    cases hdirty
  · rw [honly.2] at hhave
    cases hhave

/-- **The targets are answered in the order of their allocation**: in every run, those that have
    been popped, those on the list and those deferred are together the targets that have been
    allocated.  And **no target that needs exclusivity is popped while the block has only been
    filled as shared**, in the runs in which no request for an exclusive copy is marked as shared. -/
theorem targets_popped_in_order {as : List MshrAct} (hrun : Run (Guarded (stepOf step) Legal) start as s) :
    s.allocated = s.popped ++ ids s.mshr.targets.list ++ ids s.mshr.deferredTargets.list ∧
      (Run (Guarded (stepOf step) fun s a => s.Legal a ∧ s.Unmarked a) start as s →
        s.Legal .pop → ∀ t ∈ s.front, t.waits = true → t.pkt.cmd.needsExclusive = true → ¬ s.OnlyShared) := by
  have hordered : s.Ordered :=
    hrun.inv (fun _ _ _ h hs => h.step hs.2 hs.1) ordered_start
  have hentitled : s.Entitled := hrun.inv (fun _ _ _ h hs => h.step hs.1) entitled_start
  refine ⟨hordered.order, fun hunmarked hpop t ht hwaits hexcl => ?_⟩
  have hpromised : s.Promised :=
    hunmarked.inv (fun _ _ _ h hs => h.step hs.2.1 hs.2.2 hs.1) promised_start
  exact not_onlyShared hentitled hpromised hpop.2.1 (mem_of_mem_head? ht) hwaits hexcl

/-- A packet with a command and a shared mark. -/
def miss (id : Nat) (cmd : MemCmd) (sharedAsserted : Bool) : MissPacket :=
  ⟨id, cmd, false, false, false, sharedAsserted, false, false⟩

/-- A store misses while a read is in service and is deferred; a later read as well.  The block
    comes exclusively, so that they move up, and the read is popped. -/
def spliced : List MshrAct :=
  [.allocate 0 64 (miss 1 .readReq false) 5 0, .markInService false false false,
    .allocateTarget (miss 2 .writeReq false) 6 1, .allocateTarget (miss 3 .readReq false) 7 2, .fill false, .pop]

theorem targets_popped_after_splice : ∃ s, Run (Guarded (stepOf step) Legal) start spliced s ∧
      s.allocated = [1, 2, 3] ∧ s.popped = [1] ∧
      s.allocated = s.popped ++ ids s.mshr.targets.list ++ ids s.mshr.deferredTargets.list ∧
      s.Legal .pop ∧ (∃ t ∈ s.front, t.pkt.cmd = .writeReq) ∧ ¬ s.OnlyShared := by
  have hobs : (exec (guardFn step fun s a => s.Legal a ∧ s.Unmarked a) start spliced).map
      (fun s => (s.allocated, s.popped, decide (s.Legal .pop), s.front)) =
        some ([1, 2, 3], [1], true, some ⟨6, 1, miss 2 .writeReq false, .fromCPU, true⟩) := by
    decide +kernel
  obtain ⟨s, hs, hd⟩ := map_eq_some_iff.mp hobs
  have hrun := exec_guardFn_iff.mp hs
  have hlegal : Run (Guarded (stepOf step) Legal) start spliced s :=
    hrun.mono fun _ _ _ hstep => ⟨hstep.1, hstep.2.1⟩
  have hpop : s.Legal .pop := of_decide_eq_true (congrArg (fun x => x.2.2.1) hd)
  have hfront := congrArg (fun x => x.2.2.2) hd
  obtain ⟨horder, hshared⟩ := targets_popped_in_order hlegal
  exact ⟨s, hlegal, congrArg Prod.fst hd, congrArg (fun x => x.2.1) hd, horder, hpop,
    ⟨_, hfront, rfl⟩, hshared hrun hpop _ hfront rfl rfl⟩

/-- A read that carries the shared mark is joined by a request for an exclusive copy before it is
    sent.  The request is for an exclusive copy and carries the mark, and so does the response. -/
def markedShared : List MshrAct :=
  [.allocate 0 64 (miss 1 .readReq true) 5 0, .allocateTarget (miss 2 .readExReq false) 6 1,
    .markInService false true false, .fill true, .pop]

/-- **The exclusive target is popped although the block is only shared.** -/
theorem exclusive_target_popped_shared : ∃ s, Run (Guarded (stepOf step) Legal) start markedShared s ∧ s.Legal .pop ∧
      (∃ t ∈ s.front, t.waits = true ∧ t.pkt.cmd.needsExclusive = true) ∧ s.OnlyShared := by
  refine run_observe (fun s => (decide (s.Legal .pop), s.front, s.filled, s.exclusive))
    (true, some ⟨6, 1, miss 2 .readExReq false, .fromCPU, true⟩, true, false) (by decide +kernel) fun s hs hd => ?_
  exact ⟨of_decide_eq_true (congrArg Prod.fst hd), ⟨_, congrArg (fun x => x.2.1) hd, rfl, rfl⟩,
    congrArg (fun x => x.2.2.1) hd, congrArg (fun x => x.2.2.2) hd⟩

end MshrSys

end NvpSim.Mem
