/-
  The flags of the target lists, and what `replaceUpgrades` makes of them.

  An UpgradeReq asks for permission only, and is wrong as soon as the copy it relies on is invalidated.
  `needsExclusive` is kept by everything (`Entitled`); `hasUpgrade` by everything but the splice of
  `handleFill`: it sets `needsExclusive` of the list that the deferred targets are moved to, and FORGETS
  `hasUpgrade`.
-/
import NvpSim.Mem.MshrTargets

namespace NvpSim.Mem

open NvpSim.Sim NvpSim.Lib List Option

/-! ## Upgrades on a list -/

namespace TargetList

variable {l : TargetList} {pkt : MissPacket} {readyTime : Tick} {order : Nat} {source : Source} {pending : Bool}

/-- `hasUpgrade` is set if a target that waits is an upgrade. -/
def Upgr (l : TargetList) : Prop := l.Marks MemCmd.isUpgradeTarget l.hasUpgrade

/-- The flags are up to date. -/
structure Exact (l : TargetList) : Prop where
  excl : l.Excl
  upgr : l.Upgr

theorem Upgr.add (h : l.Upgr) : (l.add pkt readyTime order source pending).Upgr :=
  Marks.add h flags_add.2 fun hne hupgr => by rw [(add_flags hne).2, hupgr, Bool.or_true]

/-- All targets that wait are requests. -/
def Requests (l : TargetList) : Prop := ∀ t ∈ l.list, t.waits = true → t.pkt.cmd.isRequest = true

/-- A target that waits is an upgrade. -/
def WithUpgrade (l : TargetList) : Prop :=
  ∃ t ∈ l.list, t.waits = true ∧ t.pkt.cmd.isUpgradeTarget = true

theorem Requests.add (h : l.Requests) (hreq : source ≠ .fromSnoop → pkt.cmd.isRequest = true) :
    (l.add pkt readyTime order source pending).Requests := by
  intro t ht hwaits
  rw [add_list, mem_append, mem_singleton] at ht
  rcases ht with ht | rfl
  · exact h t ht hwaits
  · exact hreq (of_decide_eq_true hwaits)

theorem Requests.replaceUpgrades (h : l.Requests) : l.replaceUpgrades.Requests := by
  intro t ht hwaits
  obtain ⟨t', ht', hw, -, hr⟩ := mem_replaceUpgrades ht
  rw [hr]
  exact h t' ht' (hw ▸ hwaits)

/-- **No upgrade is left** where the flag was right. -/
theorem not_upgrade_of_replaceUpgrades (h : l.Upgr) (hreq : l.Requests) {t : Target}
    (ht : t ∈ l.replaceUpgrades.list) (hwaits : t.waits = true) : t.pkt.cmd.isUpgradeTarget = false := by
  unfold TargetList.replaceUpgrades at ht
  split at ht
  · obtain ⟨t', ht', rfl⟩ := mem_map.mp ht
    exact replaceUpgrade_not_upgrade (hreq t' ht' hwaits)
  · rename_i hnone
    exact Bool.eq_false_iff.mpr fun hupgr => hnone (h t ht hwaits hupgr)

theorem Upgr.replaceUpgrades (h : l.Upgr) (hreq : l.Requests) : l.replaceUpgrades.Upgr := by
  intro t ht hwaits hupgr
  rw [not_upgrade_of_replaceUpgrades h hreq ht hwaits] at hupgr
  cases hupgr

theorem replaceUpgrades_hasUpgrade : l.replaceUpgrades.hasUpgrade = false := by
  unfold TargetList.replaceUpgrades
  split
  · rfl
  · rename_i hnone
    exact Bool.eq_false_iff.mpr hnone

theorem withUpgrade_add (h : l.hasUpgrade = true → l.WithUpgrade) (hne : source ≠ .fromSnoop)
    (hflag : (l.add pkt readyTime order source pending).hasUpgrade = true) :
    (l.add pkt readyTime order source pending).WithUpgrade := by
  rw [(add_flags hne).2, Bool.or_eq_true] at hflag
  unfold WithUpgrade
  rw [add_list]
  rcases hflag with hold | hnew
  · obtain ⟨t, ht, hwaits, hupgr⟩ := h hold
    exact ⟨t, mem_append_left _ ht, hwaits, hupgr⟩
  · exact ⟨_, mem_append_right _ (mem_singleton_self _), decide_eq_true hne, hnew⟩

end TargetList

/-! ## Upgrades in a register -/

namespace MshrSys

variable {s s' : MshrSys}

/-- `hasUpgrade` is right for both lists, and for the deferred targets it does not say too much. -/
structure Upgraded (s : MshrSys) : Prop where
  targets : s.mshr.targets.Upgr
  deferred : s.mshr.deferredTargets.Upgr
  requests : s.mshr.targets.Requests
  deferredRequests : s.mshr.deferredTargets.Requests
  backed : s.mshr.deferredTargets.hasUpgrade = true → s.mshr.deferredTargets.WithUpgrade

/-- An exclusive fill does not move an upgrade to a list that has none. -/
def Moves (s : MshrSys) (shared : Bool) : Prop :=
  shared = false → s.mshr.movesUp = true → s.mshr.deferredTargets.hasUpgrade = true → s.mshr.targets.hasUpgrade = true

/-- The fills of the register keep to that. -/
def Benign (s : MshrSys) : MshrAct → Prop
  | .fill shared => s.Moves shared
  | .fillOwn => ∀ t ∈ s.front, s.Moves t.pkt.sharedAsserted
  | _ => True

instance (s : MshrSys) (shared : Bool) : Decidable (s.Moves shared) :=
  inferInstanceAs (Decidable (_ → _ → _ → _))

instance (s : MshrSys) (a : MshrAct) : Decidable (s.Benign a) :=
  match a with
  | .fill shared => inferInstanceAs (Decidable (s.Moves shared))
  | .fillOwn => inferInstanceAs (Decidable (∀ t ∈ s.front, s.Moves t.pkt.sharedAsserted))
  | .allocate .. | .allocateTarget .. | .snoop .. | .markInService .. | .pop | .finish .. |
    .markDownstream | .clearDownstream => isTrue trivial

theorem upgraded_start : start.Upgraded :=
  ⟨fun _ ht => (nomatch ht), fun _ ht => (nomatch ht), fun _ ht => (nomatch ht),
    fun _ ht => (nomatch ht), nofun⟩

section

variable (h : s.Upgraded)

include h

theorem Upgraded.free (hs : s.free = some s') : s'.Upgraded := by
  obtain ⟨m, hm, rfl⟩ := map_eq_some_iff.mp hs
  cases Mshr.deallocate_cases hm
  exact ⟨fun _ ht => (nomatch ht), h.deferred, fun _ ht => (nomatch ht), h.deferredRequests, h.backed⟩

theorem Upgraded.pop : s.pop.Upgraded :=
  ⟨fun t ht => h.targets t (mem_of_mem_tail ht), h.deferred,
    fun t ht => h.requests t (mem_of_mem_tail ht), h.deferredRequests, h.backed⟩

theorem Upgraded.fill {shared : Bool} (hmoves : s.Moves shared)
    (hs : s.fill shared = some s') : s'.Upgraded := by
  obtain ⟨m, hm, rfl⟩ := map_eq_some_iff.mp hs
  rcases Mshr.handleFill_cases hm with rfl | ⟨rfl, hup, rfl⟩
  · exact { h with }
  · refine ⟨fun t ht hwaits hupgr => ?_, fun _ ht => (nomatch ht),
      forall_mem_append.mpr ⟨h.requests, h.deferredRequests⟩, fun _ ht => (nomatch ht), nofun⟩
    rcases mem_append.mp ht with ht | ht
    · exact h.targets t ht hwaits hupgr
    · exact hmoves rfl hup (h.deferred t ht hwaits hupgr)

theorem Upgraded.snoop (curTick : Tick) (pkt : MissPacket) (order : Nat) :
    Upgraded { s with mshr := (s.mshr.handleSnoop curTick pkt order).1 } := by
  obtain ⟨-, hdeferred, htargets⟩ := s.mshr.handleSnoop_cases curTick pkt order
  have hnew : (s.mshr.handleSnoop curTick pkt order).1.targets.Upgr ∧
      (s.mshr.handleSnoop curTick pkt order).1.targets.Requests := by
    rcases htargets with heq | heq | ⟨b, heq⟩ <;> rw [heq]
    · exact ⟨h.targets, h.requests⟩
    · exact ⟨h.targets.replaceUpgrades h.requests, h.requests.replaceUpgrades⟩
    · exact ⟨h.targets.add, h.requests.add fun hne => absurd rfl hne⟩
  rcases hdeferred with heq | heq
  · refine ⟨hnew.1, ?_, hnew.2, ?_, ?_⟩ <;> dsimp only <;> rw [heq]
    · exact h.deferred
    · exact h.deferredRequests
    · exact h.backed
  · refine ⟨hnew.1, ?_, hnew.2, ?_, ?_⟩ <;> dsimp only <;> rw [heq]
    · exact h.deferred.replaceUpgrades h.deferredRequests
    · exact h.deferredRequests.replaceUpgrades
    · rw [TargetList.replaceUpgrades_hasUpgrade]
      exact nofun

/-- **Each step but a fill that moves an upgrade keeps `hasUpgrade` right.** -/
theorem Upgraded.step {a : MshrAct} (hleg : s.Legal a) (hben : s.Benign a)
    (hs : s.step a = some s') : s'.Upgraded := by
  cases a with
  | allocate blkAddr blkSize pkt whenReady order =>
    obtain ⟨m, hm, rfl⟩ := map_eq_some_iff.mp hs
    obtain ⟨-, hm⟩ := ite_none_right_eq_some.mp hm
    cases hm
    exact ⟨h.targets.add, h.deferred, h.requests.add fun _ => hleg.2, h.deferredRequests, h.backed⟩
  | allocateTarget pkt whenReady order =>
    obtain ⟨m, hm, rfl⟩ := map_eq_some_iff.mp hs
    rcases Mshr.allocateTarget_cases hm with ⟨-, pkt', hpkt, rfl⟩ | ⟨-, rfl⟩
    · have hreq : pkt'.cmd.isRequest = true := by
        rcases hpkt with rfl | rfl
        · exact hleg.2
        · rw [replaceUpgrade_isRequest]
          exact hleg.2
      exact ⟨h.targets, h.deferred.add, h.requests, h.deferredRequests.add fun _ => hreq,
        TargetList.withUpgrade_add h.backed (by decide)⟩
    · exact ⟨h.targets.add, h.deferred, h.requests.add fun _ => hleg.2, h.deferredRequests, h.backed⟩
  | snoop curTick pkt order =>
    cases hs
    exact h.snoop curTick pkt order
  | markInService isForward busShared pendingDirtyResp =>
    obtain ⟨⟨m, dropped⟩, hm, hnext⟩ := bind_eq_some_iff.mp hs
    obtain ⟨-, ⟨rfl, rfl⟩ | ⟨rfl, rfl⟩⟩ := Mshr.markInService_cases hm
    · refine Upgraded.free ?_ hnext
      exact ⟨h.pop.targets, h.deferred, h.pop.requests, h.deferredRequests, h.backed⟩
    · cases hnext
      exact { h with }
  | fill shared => exact h.fill hben hs
  | fillOwn =>
    obtain ⟨t, ht, hfill⟩ := bind_eq_some_iff.mp hs
    exact h.fill (hben t ht) hfill
  | pop =>
    cases hs
    exact h.pop
  | finish curTick =>
    obtain ⟨⟨m, any⟩, hm, hnext⟩ := bind_eq_some_iff.mp hs
    obtain ⟨-, ⟨rfl, -, rfl⟩ | ⟨rfl, htargets, hdeferred⟩⟩ := Mshr.promoteDeferredTargets_cases hm
    · exact Upgraded.free h hnext
    · cases hnext
      refine ⟨?_, ?_, ?_, ?_, ?_⟩ <;> dsimp only
      · rw [htargets]
        exact h.deferred
      · rw [hdeferred]
        exact fun _ ht => (nomatch ht)
      · rw [htargets]
        exact h.deferredRequests
      · rw [hdeferred]
        exact fun _ ht => (nomatch ht)
      · rw [hdeferred]
        exact nofun
  | markDownstream =>
    cases hs
    exact { h with }
  | clearDownstream =>
    obtain ⟨m, hm, rfl⟩ := map_eq_some_iff.mp hs
    cases Mshr.clearDownstreamPending_cases hm
    exact { h with }

end

/-! ## The flags in every run -/

theorem handleSnoop_replaces {m : Mshr} {pkt : MissPacket} (hexcl : pkt.cmd.needsExclusive = true)
    (t : Tick) (o : Nat) : (m.handleSnoop t pkt o).1.deferredTargets = m.deferredTargets.replaceUpgrades ∧
      (m.precedes pkt = true → (m.handleSnoop t pkt o).1.targets = m.targets.replaceUpgrades) := by
  unfold Mshr.handleSnoop
  by_cases hprec : m.precedes pkt = true
  · rw [if_pos hprec, if_pos hexcl]
    exact ⟨rfl, fun _ => rfl⟩
  · rw [if_neg hprec]
    refine ⟨?_, fun hyes => absurd hyes hprec⟩
    have hkept := (Mshr.snoopAfter_cases (m.replaceDeferred pkt) t pkt o).1.2.2
    refine hkept.trans ?_
    unfold Mshr.replaceDeferred
    rw [if_pos hexcl]

theorem fill_exact_iff (he : s.Entitled) (hu : s.Upgraded) {shared : Bool}
    (hs : s.fill shared = some s') : s'.mshr.targets.Exact ↔ s.Moves shared := by
  constructor
  · intro hexact hshared hup hflag
    obtain ⟨t, ht, hwaits, hupgr⟩ := hu.backed hflag
    subst hshared
    obtain ⟨m, hm, rfl⟩ := map_eq_some_iff.mp hs
    rcases Mshr.handleFill_cases hm with rfl | ⟨-, -, rfl⟩
    · -- the deferred targets do not stay where they are if they are to move up
      unfold Mshr.handleFill at hm
      rw [if_neg Bool.false_ne_true] at hm
      split at hm
      · cases hm
      · split at hm
        · cases hm
        · have hnone : s.mshr.deferredTargets.list = [] :=
            congrArg (fun m => m.deferredTargets.list) (some.inj hm).symm
          rw [hnone] at ht
          cases ht
    · exact hexact.upgr t (mem_append_right _ ht) hwaits hupgr
  · intro hmoves
    exact ⟨(he.fill hs).excl, (hu.fill hmoves hs).targets⟩

/-- **The flags are exact** in every run whose fills move no upgrade to a list that has none: a list
    with a target that needs exclusivity says so, and a list with an upgrade says so, so that a
    snoop that invalidates leaves none of the upgrades that it precedes.  And the fill that does
    not keep to that is the one that breaks them. -/
theorem target_flags_exact {as : List MshrAct}
    (hrun : Run (Guarded (stepOf step) fun s a => s.Legal a ∧ s.Benign a) start as s) :
    s.mshr.targets.Exact ∧ s.mshr.deferredTargets.Exact ∧
      (∀ curTick pkt order s', s.step (.snoop curTick pkt order) = some s' → pkt.cmd.needsExclusive = true →
          (∀ t ∈ s'.mshr.deferredTargets.list, t.waits = true → t.pkt.cmd.isUpgradeTarget = false) ∧
          (s.mshr.precedes pkt = true → ∀ t ∈ s'.mshr.targets.list, t.waits = true →
            t.pkt.cmd.isUpgradeTarget = false)) ∧ (∀ shared s', s.step (.fill shared) = some s' →
        (s'.mshr.targets.Exact ↔ s.Benign (.fill shared))) := by
  have he : s.Entitled := hrun.inv (fun _ _ _ h hs => h.step hs.1) entitled_start
  have hu : s.Upgraded := hrun.inv (fun _ _ _ h hs => h.step hs.2.1 hs.2.2 hs.1) upgraded_start
  refine ⟨⟨he.excl, hu.targets⟩, ⟨he.deferredExcl, hu.deferred⟩, ?_, ?_⟩
  · intro curTick pkt order s' hs hexcl
    cases hs
    obtain ⟨hdeferred, htargets⟩ := handleSnoop_replaces (m := s.mshr) hexcl curTick order
    constructor
    · intro t ht
      rw [hdeferred] at ht
      exact TargetList.not_upgrade_of_replaceUpgrades hu.deferred hu.deferredRequests ht
    · intro hprec t ht
      rw [htargets hprec] at ht
      exact TargetList.not_upgrade_of_replaceUpgrades hu.targets hu.requests ht
  · intro shared s' hs
    exact fill_exact_iff he hu hs

/-- An upgrade waits behind a read that is in service. -/
def upgradeDeferred : List MshrAct :=
  [.allocate 0 64 (miss 1 .readReq false) 5 0, .markInService false false false,
    .allocateTarget (miss 2 .upgradeReq false) 6 1]

theorem target_flags_exact_upgrade_deferred :
    ∃ s, Run (Guarded (stepOf step) fun s a => s.Legal a ∧ s.Benign a) start upgradeDeferred s ∧
      s.mshr.deferredTargets.hasUpgrade = true ∧ s.mshr.deferredTargets.Exact ∧
      ∀ s', s.step (.snoop 7 (miss 3 .readExReq false) 2) = some s' →
        ∀ t ∈ s'.mshr.deferredTargets.list, t.waits = true → t.pkt.cmd.isUpgradeTarget = false := by
  refine run_observe (fun s => s.mshr.deferredTargets.hasUpgrade) true (by decide +kernel) fun s hrun hd => ?_
  obtain ⟨-, hexact, hsnoop, -⟩ := target_flags_exact hrun
  exact ⟨hd, hexact, fun s' hs' => (hsnoop 7 _ 2 s' hs' rfl).1⟩

/-- **The splice forgets the upgrade**: the response to the read is exclusive, so that the upgrade
    is moved up, to a list whose `hasUpgrade` is not set. -/
theorem spliced_upgrade_unflagged :
    ∃ s, Run (Guarded (stepOf step) Legal) start (upgradeDeferred ++ [.fill false]) s ∧
      s.mshr.targets.hasUpgrade = false ∧
      ∃ t ∈ s.mshr.targets.list, t.source = .fromCPU ∧ t.pkt.cmd = .upgradeReq := by
  refine run_observe (fun s => (s.mshr.targets.hasUpgrade, s.mshr.targets.list.getLast?))
    (false, some ⟨6, 1, miss 2 .upgradeReq false, .fromCPU, true⟩) (by decide +kernel) fun s hs hd => ?_
  have hlast := congrArg Prod.snd hd
  exact ⟨congrArg Prod.fst hd, _, mem_of_getLast? hlast, rfl, rfl⟩

end MshrSys

end NvpSim.Mem
