/-
  The queue of miss status holding registers (`mem/cache/mshr_queue.{hh,cc}`).

  A register is on the FREE list or on the ALLOCATED list; an allocated register is also on the READY list while
  it is not in service.  A register keeps the iterators of its two places, and is erased through them.  The
  ready list is in the order of `readyTime`, as long as `moveToFront` does not put a register ahead of one that
  is ready before it.

  Between the calls the cache changes the registers (`RegisterOp`).

  Left out: `label`, `index`, the drain manager, and `isFull` and `canPrefetch` with the reserves.  `threadNum`
  is 0 for every allocated register.
-/
import NvpSim.Lib.IterList
import NvpSim.Mem.MshrTargets

namespace NvpSim.Mem

open NvpSim.Sim NvpSim.Lib List Option Function

/-! ## The queue -/

/-- `MSHRQueue`.  A register is named by its number; a register that has never been on a list has
    no iterator. -/
structure MshrQueue where
  registers : Nat → Mshr
  allocatedList : IterList Nat
  readyList : IterList Nat
  freeList : List Nat
  allocIter : Nat → Option Nat
  readyIter : Nat → Option Nat
  allocated : Int
  inServiceEntries : Int

namespace MshrQueue

/-- `MSHRQueue(_label, num_entries, reserve, …)`. -/
def new (numEntries reserve : Nat) : MshrQueue where
  registers := fun _ => .new
  allocatedList := .empty
  readyList := .empty
  freeList := List.range (numEntries + reserve - 1)
  allocIter := fun _ => none
  readyIter := fun _ => none
  allocated := 0
  inServiceEntries := 0

/-- The register is in service. -/
def inService (q : MshrQueue) (r : Nat) : Bool := (q.registers r).inService

/-- The time at which the register is ready. -/
def readyTime (q : MshrQueue) (r : Nat) : Nat := (q.registers r).readyTime

/-- Another value for a register. -/
def setRegister (q : MshrQueue) (r : Nat) (m : Mshr) : MshrQueue :=
  { q with registers := update q.registers r m }

/-- The place that `addToReadyList` finds for a register. -/
def readyPlace (q : MshrQueue) (r : Nat) : Option Nat :=
  if q.readyList.toList.getLast?.all fun b => q.readyTime b ≤ q.readyTime r then
    some q.readyList.toList.length
  else
    -- `none` is the `assert(false)` behind the loop
    q.readyList.toList.findIdx? fun x => q.readyTime r < q.readyTime x

/-- A register is inserted in the ready list. -/
def insertReady (q : MshrQueue) (r i : Nat) : MshrQueue :=
  { q with
    readyList := q.readyList.insertAt i r
    readyIter := update q.readyIter r (some q.readyList.next) }

def addToReadyList (q : MshrQueue) (r : Nat) : Option MshrQueue :=
  (q.readyPlace r).map (q.insertReady r)

/-- `readyList.erase(mshr->readyIter)`. -/
def eraseReady (q : MshrQueue) (r : Nat) : Option MshrQueue :=
  (q.readyIter r).bind fun it => (q.readyList.erase it).map fun l => { q with readyList := l }

/-- The register that has been taken from the free list is put on the allocated list. -/
def insertAllocated (q : MshrQueue) (r : Nat) : MshrQueue :=
  { q with
    allocatedList := q.allocatedList.insertAt q.allocatedList.toList.length r
    allocIter := update q.allocIter r (some q.allocatedList.next) }

/-- `allocate(blk_addr, blk_size, pkt, when_ready, order)`: the register that it returns as well. -/
def allocate (q : MshrQueue) (blkAddr : Addr) (blkSize : Nat) (pkt : MissPacket) (whenReady : Tick)
    (order : Nat) : Option (MshrQueue × Nat) :=
  match q.freeList with
  | [] => none
  | r :: free =>
    if (q.registers r).getNumTargets ≠ 0 then none
    else
      ((q.registers r).allocate blkAddr blkSize pkt whenReady order).bind fun m =>
        ((({ q with freeList := free : MshrQueue }.setRegister r m).insertAllocated r).addToReadyList
          r).map fun q => ({ q with allocated := q.allocated + 1 }, r)

/-- The register is taken from the allocated list and put on the free list. -/
def release (q : MshrQueue) (r : Nat) : Option MshrQueue :=
  (q.allocIter r).bind fun it => (q.allocatedList.erase it).map fun l =>
    { q with
      allocatedList := l
      freeList := r :: q.freeList
      allocated := q.allocated - 1 }

/-- The register is no longer in service, or no longer ready. -/
def unlist (q : MshrQueue) (r : Nat) : Option MshrQueue :=
  if q.inService r then some { q with inServiceEntries := q.inServiceEntries - 1 }
  else q.eraseReady r

def deallocateOne (q : MshrQueue) (r : Nat) : Option MshrQueue :=
  (q.release r).bind fun q => (q.unlist r).bind fun q =>
    (q.registers r).deallocate.map fun m => q.setRegister r m

def deallocate (q : MshrQueue) (r : Nat) : Option MshrQueue := q.deallocateOne r

def moveToFront (q : MshrQueue) (r : Nat) : Option MshrQueue :=
  if q.inService r then some q
  else if (q.readyIter r).bind q.readyList.get? ≠ some r then none
  else (q.eraseReady r).map fun q => q.insertReady r 0

def markInService (q : MshrQueue) (r : Nat) (pendingDirtyResp : Bool) : Option MshrQueue :=
  ((q.registers r).markInService pendingDirtyResp).bind fun res =>
    if res.2 then (q.setRegister r res.1).deallocate r
    else ((q.setRegister r res.1).eraseReady r).map fun q =>
      { q with inServiceEntries := q.inServiceEntries + 1 }

def markPending (q : MshrQueue) (r : Nat) : Option MshrQueue :=
  if q.inService r then
    ({ q with inServiceEntries := q.inServiceEntries - 1 }.setRegister r
      { q.registers r with inService := false }).addToReadyList r
  else none

/-- The turn of `squash` for one register: all targets are popped. -/
def squashOne (q : MshrQueue) (r : Nat) : Option MshrQueue :=
  let m := { q.registers r with targets := { (q.registers r).targets with list := [] } }
  if m.getNumTargets ≠ 0 then none
  else if m.inService then some (q.setRegister r m)
  else (q.setRegister r m).deallocateOne r

def squash (q : MshrQueue) (threadNum : Int) : Option MshrQueue :=
  if threadNum = 0 then exec squashOne q q.allocatedList.toList else some q

end MshrQueue

/-! ## The calls -/

/-- What the cache does to a register between two calls of the queue. -/
inductive RegisterOp where
  | allocateTarget (pkt : MissPacket) (whenReady : Tick) (order : Nat)
  | handleSnoop (curTick : Tick) (pkt : MissPacket) (order : Nat)
  | handleFill (sharedAsserted : Bool)
  | popTarget
  | promoteDeferredTargets (curTick : Tick)
  | isForward (value : Bool)
  | markDownstream
  | clearDownstreamPending

/-- The register after it.  Targets are promoted in service only. -/
def RegisterOp.apply (m : Mshr) : RegisterOp → Option Mshr
  | .allocateTarget pkt whenReady order => m.allocateTarget pkt whenReady order
  | .handleSnoop curTick pkt order => some (m.handleSnoop curTick pkt order).1
  | .handleFill sharedAsserted => m.handleFill sharedAsserted
  | .popTarget => some m.popTarget
  | .promoteDeferredTargets curTick =>
    if m.inService then (m.promoteDeferredTargets curTick).map Prod.fst else none
  | .isForward value => some { m with isForward := value }
  | .markDownstream => some { m with downstreamPending := true }
  | .clearDownstreamPending => m.clearDownstreamPending

theorem Mshr.handleSnoop_readyTime (m : Mshr) (t : Tick) (pkt : MissPacket) (o : Nat) :
    (m.handleSnoop t pkt o).1.readyTime = m.readyTime := by
  unfold Mshr.handleSnoop Mshr.snoopAfter Mshr.saveSnoop Mshr.replaceDeferred
  split_ifs <;> rfl

/-- Other changes of a register leave its place in the queue as it is. -/
theorem RegisterOp.keeps {op : RegisterOp} {m m' : Mshr} (h : op.apply m = some m') :
    m'.inService = m.inService ∧ (m.inService = false → m'.readyTime = m.readyTime) := by
  cases op with
  | allocateTarget pkt whenReady order =>
    rcases Mshr.allocateTarget_cases h with ⟨-, pkt', -, rfl⟩ | ⟨-, rfl⟩
    · exact ⟨rfl, fun _ => rfl⟩
    · exact ⟨rfl, fun _ => rfl⟩
  | handleSnoop curTick pkt order =>
    cases h
    exact ⟨(m.handleSnoop_cases curTick pkt order).1.1, fun _ => m.handleSnoop_readyTime curTick pkt order⟩
  | handleFill sharedAsserted =>
    rcases Mshr.handleFill_cases h with rfl | ⟨-, -, rfl⟩
    · exact ⟨rfl, fun _ => rfl⟩
    · exact ⟨rfl, fun _ => rfl⟩
  | popTarget | isForward value | markDownstream =>
    cases h
    exact ⟨rfl, fun _ => rfl⟩
  | promoteDeferredTargets curTick =>
    unfold RegisterOp.apply at h
    dsimp only at h
    split at h
    · rename_i hservice
      obtain ⟨⟨m₁, any⟩, hm₁, rfl⟩ := map_eq_some_iff.mp h
      refine ⟨?_, fun hidle => ?_⟩
      · unfold Mshr.promoteDeferredTargets at hm₁
        split at hm₁
        · split at hm₁
          · cases hm₁
            rfl
          · cases hm₁
            rfl
        · cases hm₁
      · rw [hservice] at hidle
        cases hidle
    · cases h
  | clearDownstreamPending =>
    cases Mshr.clearDownstreamPending_cases h
    exact ⟨rfl, fun _ => rfl⟩

/-- The calls. -/
inductive MshrCall where
  | allocate (blkAddr : Addr) (blkSize : Nat) (pkt : MissPacket) (whenReady : Tick) (order : Nat)
  | deallocate (r : Nat)
  | moveToFront (r : Nat)
  | markInService (r : Nat) (pendingDirtyResp : Bool)
  | markPending (r : Nat)
  | squash (threadNum : Int)
  | register (r : Nat) (op : RegisterOp)

namespace MshrQueue

/-- One call; `none` if one of its assertions fails, or an iterator is stale. -/
def step (q : MshrQueue) : MshrCall → Option MshrQueue
  | .allocate blkAddr blkSize pkt whenReady order =>
    (q.allocate blkAddr blkSize pkt whenReady order).map Prod.fst
  | .deallocate r => q.deallocate r
  | .moveToFront r => q.moveToFront r
  | .markInService r pendingDirtyResp => q.markInService r pendingDirtyResp
  | .markPending r => q.markPending r
  | .squash threadNum => q.squash threadNum
  | .register r op => (op.apply (q.registers r)).map (q.setRegister r)

/-- No register is moved to the front ahead of one that is ready before it. -/
def Timely (q : MshrQueue) : MshrCall → Prop
  | .moveToFront r =>
    q.inService r = false → ∀ x ∈ q.readyList.toList, q.readyTime r ≤ q.readyTime x
  | _ => True

instance (q : MshrQueue) (c : MshrCall) : Decidable (q.Timely c) :=
  match c with
  | .moveToFront r =>
    inferInstanceAs (Decidable (_ → ∀ x ∈ q.readyList.toList, q.readyTime r ≤ q.readyTime x))
  | .allocate .. | .deallocate .. | .markInService .. | .markPending .. | .squash .. |
    .register .. => isTrue trivial

/-- The ready list is in the order of `readyTime`. -/
def InOrder (q : MshrQueue) : Prop :=
  q.readyList.toList.Pairwise fun a b => q.readyTime a ≤ q.readyTime b

/-! ## What the calls do -/

variable {q q' : MshrQueue} {size r : Nat} {m : Mshr}

theorem inService_setRegister (x : Nat) :
    (q.setRegister r m).inService x = if x = r then m.inService else q.inService x := by
  show (update q.registers r m x).inService = _
  by_cases hx : x = r
  · rw [hx, update_self, if_pos rfl]
  · rw [update_of_ne hx, if_neg hx]
    rfl

theorem readyTime_setRegister_of_ne {x : Nat} (hx : x ≠ r) : (q.setRegister r m).readyTime x = q.readyTime x := by
  show (update q.registers r m x).readyTime = _
  rw [update_of_ne hx]
  rfl

theorem eraseReady_cases (h : q.eraseReady r = some q') :
    ∃ it l, q.readyIter r = some it ∧ q.readyList.erase it = some l ∧ q' = { q with readyList := l } := by
  obtain ⟨it, hit, herase⟩ := bind_eq_some_iff.mp h
  obtain ⟨l, hl, rfl⟩ := map_eq_some_iff.mp herase
  exact ⟨it, l, hit, hl, rfl⟩

theorem release_cases (h : q.release r = some q') :
    ∃ it l, q.allocIter r = some it ∧ q.allocatedList.erase it = some l ∧ q' = { q with
        allocatedList := l
        freeList := r :: q.freeList
        allocated := q.allocated - 1 } := by
  obtain ⟨it, hit, herase⟩ := bind_eq_some_iff.mp h
  obtain ⟨l, hl, rfl⟩ := map_eq_some_iff.mp herase
  exact ⟨it, l, hit, hl, rfl⟩

theorem unlist_cases (h : q.unlist r = some q') (hready : q.readyList.Indexed q.readyIter)
    (hserved : q.inService r = true → r ∉ q.readyList.toList) :
    ∃ l n, q' = { q with readyList := l, inServiceEntries := n } ∧ l.Indexed q.readyIter ∧
      (∀ x, x ∈ l.toList ↔ x ∈ q.readyList.toList ∧ x ≠ r) ∧
      n + l.toList.length + 1 = q.inServiceEntries + q.readyList.toList.length ∧
      l.toList.Sublist q.readyList.toList := by
  unfold unlist at h
  split at h
  · rename_i hservice
    cases h
    refine ⟨q.readyList, _, rfl, hready, fun x => ?_, by omega, List.Sublist.refl _⟩
    exact ⟨fun hx => ⟨hx, fun heq => hserved hservice (heq ▸ hx)⟩, fun hx => hx.1⟩
  · obtain ⟨it, l, hit, hl, rfl⟩ := eraseReady_cases h
    obtain ⟨hindexed, -, hmem, hlen, hsub⟩ := hready.erase hit hl
    exact ⟨l, q.inServiceEntries, rfl, hindexed, hmem, by omega, hsub⟩

/-! ## The bookkeeping -/

/-- The lists, the iterators and the counters fit. -/
structure Kept (q : MshrQueue) (size : Nat) : Prop where
  alloc : q.allocatedList.Indexed q.allocIter
  ready : q.readyList.Indexed q.readyIter
  free : q.freeList.Nodup
  apart : ∀ r ∈ q.freeList, r ∉ q.allocatedList.toList
  all : ∀ r, r < size ↔ r ∈ q.freeList ∨ r ∈ q.allocatedList.toList
  pending : ∀ r, r ∈ q.readyList.toList ↔ r ∈ q.allocatedList.toList ∧ q.inService r = false
  served : ∀ r, q.inService r = true → r ∈ q.allocatedList.toList
  allocated : q.allocated = q.allocatedList.toList.length
  entries : q.inServiceEntries + q.readyList.toList.length = q.allocatedList.toList.length

theorem kept_new (numEntries reserve : Nat) : (new numEntries reserve).Kept (numEntries + reserve - 1) where
  alloc := IterList.indexed_empty
  ready := IterList.indexed_empty
  free := nodup_range
  apart := nofun
  all := fun r => by
    show r < numEntries + reserve - 1 ↔ r ∈ List.range (numEntries + reserve - 1) ∨ r ∈ []
    simp
  pending := fun _ => ⟨nofun, fun hr => (nomatch hr.1)⟩
  served := nofun
  allocated := rfl
  entries := rfl

section

variable (h : q.Kept size)

include h

/-- A register changes, but not whether it is in service. -/
theorem Kept.setRegister (hm : m.inService = q.inService r) : (q.setRegister r m).Kept size := by
  have hsame : (q.setRegister r m).inService = q.inService := by
    funext x
    rw [inService_setRegister]
    by_cases hx : x = r
    · rw [if_pos hx, hm, hx]
    · exact if_neg hx
  refine { h with pending := ?_, served := ?_ }
  · rw [hsame]
    exact h.pending
  · rw [hsame]
    exact h.served

theorem deallocateOne_cases (hs : q.deallocateOne r = some q') : ∃ la lr n m, q' = { q with
        allocatedList := la
        readyList := lr
        freeList := r :: q.freeList
        allocated := q.allocated - 1
        inServiceEntries := n
        registers := update q.registers r m } ∧
      m.inService = false ∧ q.allocatedList.Erased la q.allocIter r ∧
      (lr.Indexed q.readyIter ∧ (∀ x, x ∈ lr.toList ↔ x ∈ q.readyList.toList ∧ x ≠ r) ∧
        n + lr.toList.length + 1 = q.inServiceEntries + q.readyList.toList.length ∧
        lr.toList.Sublist q.readyList.toList) := by
  obtain ⟨q₁, hq₁, hrest⟩ := bind_eq_some_iff.mp hs
  obtain ⟨q₂, hq₂, hrest⟩ := bind_eq_some_iff.mp hrest
  obtain ⟨m, hm, rfl⟩ := map_eq_some_iff.mp hrest
  obtain ⟨it, la, hit, hla, rfl⟩ := release_cases hq₁
  have hserved : q.inService r = true → r ∉ q.readyList.toList := by
    intro hservice hr
    rw [((h.pending r).mp hr).2] at hservice
    cases hservice
  obtain ⟨lr, n, rfl, hready⟩ := unlist_cases hq₂ h.ready hserved
  have hidle : m.inService = false := by
    cases Mshr.deallocate_cases hm
    rfl
  exact ⟨la, lr, n, m, rfl, hidle, h.alloc.erase hit hla, hready⟩

theorem Kept.served_setRegister {x : Nat} (hx : (q.setRegister r m).inService x = true) :
    x = r ∧ m.inService = true ∨ x ≠ r ∧ x ∈ q.allocatedList.toList := by
  rw [inService_setRegister] at hx
  by_cases hxr : x = r
  · exact Or.inl ⟨hxr, by rwa [if_pos hxr] at hx⟩
  · rw [if_neg hxr] at hx
    exact Or.inr ⟨hxr, h.served x hx⟩

/-- **A register is given back.** -/
theorem Kept.deallocateOne (hs : q.deallocateOne r = some q') : q'.Kept size := by
  obtain ⟨la, lr, n, m, rfl, hidle, ⟨halloc, hin, hmem, hlen, -⟩, hready, hmem', hlen', -⟩ :=
    deallocateOne_cases h hs
  have hallocated := h.allocated
  have hentries := h.entries
  constructor
  case alloc => exact halloc
  case ready => exact hready
  case free => exact nodup_cons.mpr ⟨fun hr => h.apart r hr hin, h.free⟩
  case apart =>
    intro x hx hxl
    obtain ⟨hxin, hne⟩ := (hmem x).mp hxl
    exact h.apart x ((mem_cons.mp hx).resolve_left hne) hxin
  case all =>
    intro x
    show x < size ↔ x ∈ r :: q.freeList ∨ x ∈ la.toList
    rw [h.all x, hmem x]
    by_cases hx : x = r
    · simp [hx, hin]
    · simp [hx]
  case pending =>
    intro x
    show x ∈ lr.toList ↔ x ∈ la.toList ∧ (q.setRegister r m).inService x = false
    rw [hmem' x, hmem x, h.pending x, inService_setRegister]
    by_cases hx : x = r
    · simp [hx]
    · simp [hx]
  case served =>
    intro x hx
    obtain ⟨-, hservice⟩ | ⟨hne, hxin⟩ := Kept.served_setRegister (r := r) (m := m) h hx
    · rw [hidle] at hservice
      cases hservice
    · exact (hmem x).mpr ⟨hxin, hne⟩
  case allocated =>
    show q.allocated - 1 = la.toList.length
    omega
  case entries =>
    show n + lr.toList.length = la.toList.length
    omega

/-- A register goes on or off the ready list. -/
theorem Kept.relist (hr : r ∈ q.allocatedList.toList) {l : IterList Nat} {iter : Nat → Option Nat}
    {n : Int} (hl : l.Indexed iter) (hmem : ∀ x, x ∈ l.toList ↔
      (x ∈ q.readyList.toList ∧ x ≠ r) ∨ (x = r ∧ m.inService = false))
    (hn : n + l.toList.length = q.allocatedList.toList.length) :
    Kept { q.setRegister r m with readyList := l, readyIter := iter, inServiceEntries := n } size := by
  refine { h with ready := hl, pending := ?pending, served := ?served, entries := hn }
  case pending =>
    intro x
    show x ∈ l.toList ↔ x ∈ q.allocatedList.toList ∧ (q.setRegister r m).inService x = false
    rw [hmem x, h.pending x, inService_setRegister]
    by_cases hx : x = r
    · simp [hx, hr]
    · simp [hx]
  case served =>
    intro x hx
    obtain ⟨rfl, -⟩ | ⟨-, hxin⟩ := Kept.served_setRegister (r := r) (m := m) h hx
    · exact hr
    · exact hxin

/-- What `moveToFront` does. -/
theorem moveToFront_cases (hs : q.moveToFront r = some q') :
    q' = q ∨ q.inService r = false ∧ ∃ l, q' = { q with readyList := l }.insertReady r 0 ∧
      q.readyList.Erased l q.readyIter r := by
  unfold MshrQueue.moveToFront at hs
  split at hs
  · exact Or.inl (some.inj hs).symm
  · rename_i hidle
    split at hs
    · cases hs
    · obtain ⟨q₁, hq₁, rfl⟩ := map_eq_some_iff.mp hs
      obtain ⟨it, l, hit, hl, rfl⟩ := eraseReady_cases hq₁
      exact Or.inr ⟨Bool.eq_false_iff.mpr hidle, l, rfl, h.ready.erase hit hl⟩

/-- **A register is moved to the front.** -/
theorem Kept.moveToFront (hs : q.moveToFront r = some q') : q'.Kept size := by
  rcases moveToFront_cases h hs with rfl | ⟨hidle, l, rfl, hindexed, hin, hmem, hlen, -⟩
  · exact h
  · have hnot : r ∉ l.toList := fun hr => ((hmem r).mp hr).2 rfl
    have hentries := h.entries
    have hkept := h.relist (m := q.registers r) ((h.pending r).mp hin).1
      (hindexed.insertAt hnot 0) (n := q.inServiceEntries) (fun x => ?_) ?_
    · unfold MshrQueue.setRegister at hkept
      rw [update_eq_self] at hkept
      exact hkept
    · rw [IterList.mem_insertAt, hmem x, show (q.registers r).inService = false from hidle]
      simp [or_comm]
    · rw [IterList.length_insertAt]
      omega

theorem markInService_cases {pendingDirtyResp : Bool} (hs : q.markInService r pendingDirtyResp = some q') :
    (q.setRegister r (q.registers r).popTarget).deallocateOne r = some q' ∨
      ∃ m l, m.inService = true ∧ q' = { q.setRegister r m with
          readyList := l
          inServiceEntries := q.inServiceEntries + 1 } ∧
        q.readyList.Erased l q.readyIter r := by
  obtain ⟨⟨m, dropped⟩, hm, hnext⟩ := bind_eq_some_iff.mp hs
  obtain ⟨-, ⟨rfl, rfl⟩ | ⟨rfl, hmarked⟩⟩ := Mshr.markInService_cases hm
  · exact Or.inl hnext
  · obtain ⟨q₁, hq₁, rfl⟩ := map_eq_some_iff.mp hnext
    obtain ⟨it, l, hit, hl, rfl⟩ := eraseReady_cases hq₁
    exact Or.inr ⟨m, l, by rw [hmarked], rfl, h.ready.erase hit hl⟩

/-- **A register is put in service**, or dropped. -/
theorem Kept.markInService {pendingDirtyResp : Bool} (hs : q.markInService r pendingDirtyResp = some q') :
    q'.Kept size := by
  rcases markInService_cases h hs with hnext | ⟨m, l, hservice, rfl, hindexed, hin, hmem, hlen, -⟩
  · have hkept : (q.setRegister r (q.registers r).popTarget).Kept size := h.setRegister rfl
    exact hkept.deallocateOne hnext
  · have hentries := h.entries
    refine h.relist ((h.pending r).mp hin).1 hindexed (fun x => ?_) ?_
    · rw [hservice, hmem x]
      simp
    · omega

end

theorem addToReadyList_cases (h : q.addToReadyList r = some q') :
    ∃ i, q.readyPlace r = some i ∧ q' = q.insertReady r i := by
  obtain ⟨i, hi, rfl⟩ := map_eq_some_iff.mp h
  exact ⟨i, hi, rfl⟩

/-- **A register is to be sent again.** -/
theorem Kept.markPending (h : q.Kept size) (hs : q.markPending r = some q') : q'.Kept size := by
  obtain ⟨hservice, hs⟩ := ite_none_right_eq_some.mp hs
  obtain ⟨i, -, rfl⟩ := addToReadyList_cases hs
  have hnot : r ∉ q.readyList.toList := by
    intro hr
    rw [((h.pending r).mp hr).2] at hservice
    cases hservice
  have hentries := h.entries
  refine h.relist (h.served r hservice) (h.ready.insertAt hnot i) (fun x => ?_) ?_
  · show x ∈ (q.readyList.insertAt i r).toList ↔ (x ∈ q.readyList.toList ∧ x ≠ r) ∨ (x = r ∧ false = false)
    rw [IterList.mem_insertAt]
    by_cases hx : x = r
    · simp [hx]
    · simp [hx]
  · show q.inServiceEntries - 1 + ((q.readyList.insertAt i r).toList.length : Int) = q.allocatedList.toList.length
    rw [IterList.length_insertAt]
    omega

/-- What `allocate` does. -/
theorem allocate_cases {blkAddr : Addr} {blkSize : Nat} {pkt : MissPacket} {whenReady : Tick}
    {order : Nat} (h : q.allocate blkAddr blkSize pkt whenReady order = some (q', r)) :
    ∃ free m q₁ i, q.freeList = r :: free ∧ m.inService = false ∧
      q₁ = ({ q with freeList := free : MshrQueue }.setRegister r m).insertAllocated r ∧ q₁.readyPlace r = some i ∧
      q' = { q₁.insertReady r i with allocated := q.allocated + 1 } := by
  unfold MshrQueue.allocate at h
  split at h
  · cases h
  · rename_i r₁ free hfree
    split at h
    · cases h
    · obtain ⟨m, hm, hadd⟩ := bind_eq_some_iff.mp h
      obtain ⟨q₂, hq₂, heq⟩ := map_eq_some_iff.mp hadd
      obtain ⟨i, hi, rfl⟩ := addToReadyList_cases hq₂
      cases heq
      have hidle : m.inService = false := by
        obtain ⟨-, hm⟩ := ite_none_right_eq_some.mp hm
        cases hm
        rfl
      exact ⟨free, m, _, i, hfree, hidle, rfl, hi, rfl⟩

/-- **A register is allocated.** -/
theorem Kept.allocate (h : q.Kept size) {blkAddr : Addr} {blkSize : Nat} {pkt : MissPacket}
    {whenReady : Tick} {order : Nat}
    (hs : q.allocate blkAddr blkSize pkt whenReady order = some (q', r)) : q'.Kept size := by
  obtain ⟨free, m, q₁, i, hfree, hidle, rfl, -, rfl⟩ := allocate_cases hs
  have hmemfree : r ∈ q.freeList := hfree ▸ mem_cons_self ..
  have hnew : r ∉ q.allocatedList.toList := h.apart r hmemfree
  have hnot : r ∉ q.readyList.toList := fun hr => hnew ((h.pending r).mp hr).1
  have hnodup := h.free
  rw [hfree, nodup_cons] at hnodup
  have hallocated := h.allocated
  have hentries := h.entries
  constructor
  case alloc => exact h.alloc.insertAt hnew _
  case ready => exact h.ready.insertAt hnot i
  case free => exact hnodup.2
  case apart =>
    intro x hx hxa
    rcases IterList.mem_insertAt.mp hxa with rfl | hxa
    · exact hnodup.1 hx
    · exact h.apart x (hfree ▸ mem_cons_of_mem r hx) hxa
  case all =>
    intro x
    show x < size ↔ x ∈ free ∨ x ∈ (q.allocatedList.insertAt _ r).toList
    rw [h.all x, hfree, IterList.mem_insertAt, mem_cons]
    exact ⟨fun hx => by tauto, fun hx => by tauto⟩
  case pending =>
    intro x
    show x ∈ (q.readyList.insertAt i r).toList ↔ x ∈ (q.allocatedList.insertAt _ r).toList ∧
      (q.setRegister r m).inService x = false
    rw [IterList.mem_insertAt, IterList.mem_insertAt, h.pending x, inService_setRegister]
    by_cases hx : x = r
    · simp [hx, hidle]
    · simp [hx]
  case served =>
    intro x hx
    refine IterList.mem_insertAt.mpr ?_
    exact (Kept.served_setRegister (r := r) (m := m) h hx).imp (·.1) (·.2)
  case allocated =>
    show q.allocated + 1 = ((q.allocatedList.insertAt _ r).toList.length : Int)
    rw [IterList.length_insertAt]
    omega
  case entries =>
    show q.inServiceEntries + ((q.readyList.insertAt i r).toList.length : Int) =
      (q.allocatedList.insertAt _ r).toList.length
    rw [IterList.length_insertAt, IterList.length_insertAt]
    omega

theorem squashOne_cases (hs : q.squashOne r = some q') :
    ∃ m, m.inService = q.inService r ∧ m.readyTime = q.readyTime r ∧
      (q' = q.setRegister r m ∨ (q.setRegister r m).deallocateOne r = some q') := by
  unfold MshrQueue.squashOne at hs
  dsimp only at hs
  split at hs
  · cases hs
  · refine ⟨{ q.registers r with targets := { (q.registers r).targets with list := [] } }, rfl, rfl, ?_⟩
    split at hs
    · exact Or.inl (some.inj hs).symm
    · exact Or.inr hs

theorem Kept.squashOne (h : q.Kept size) (hs : q.squashOne r = some q') : q'.Kept size := by
  obtain ⟨m, hm, -, rfl | hfree⟩ := squashOne_cases hs
  · exact h.setRegister hm
  · exact (h.setRegister hm).deallocateOne hfree

theorem Kept.squash (h : q.Kept size) {threadNum : Int} (hs : q.squash threadNum = some q') : q'.Kept size := by
  unfold MshrQueue.squash at hs
  split at hs
  · exact (exec_iff.mp hs).inv (P := fun q => q.Kept size) (fun _ _ _ hk hstep => hk.squashOne hstep) h
  · cases hs
    exact h

/-- **Every call keeps the books.** -/
theorem Kept.step (h : q.Kept size) {c : MshrCall} (hs : q.step c = some q') : q'.Kept size := by
  cases c with
  | allocate blkAddr blkSize pkt whenReady order =>
    obtain ⟨⟨q₁, r⟩, hq₁, rfl⟩ := map_eq_some_iff.mp hs
    exact h.allocate hq₁
  | deallocate r => exact h.deallocateOne hs
  | moveToFront r => exact h.moveToFront hs
  | markInService r pendingDirtyResp => exact h.markInService hs
  | markPending r => exact h.markPending hs
  | squash threadNum => exact h.squash hs
  | register r op =>
    obtain ⟨m, hm, rfl⟩ := map_eq_some_iff.mp hs
    exact h.setRegister (RegisterOp.keeps hm).1

/-! ## The order of the ready list -/

/-- **There is always a place**: if the last register is ready later, the loop stops there at the
    latest. -/
theorem addToReadyList_isSome (q : MshrQueue) (r : Nat) : (q.addToReadyList r).isSome = true := by
  unfold MshrQueue.addToReadyList readyPlace
  rw [isSome_map]
  split
  · rfl
  · rename_i hlater
    rw [findIdx?_isSome, List.any_eq_true]
    cases hlast : q.readyList.toList.getLast? with
    | none =>
      rw [hlast] at hlater
      exact absurd rfl hlater
    | some b =>
      rw [hlast, all_some, decide_eq_true_eq] at hlater
      exact ⟨b, mem_of_getLast? hlast, decide_eq_true (by omega)⟩

section

variable (h : q.InOrder)

include h

/-- The walk of `addToReadyList` stops between the registers that are ready earlier and those that are
    later. -/
theorem readyPlace_splits {i : Nat} (hi : q.readyPlace r = some i) :
    (∀ x ∈ q.readyList.toList.take i, q.readyTime x ≤ q.readyTime r) ∧
      (∀ x ∈ q.readyList.toList.drop i, q.readyTime r ≤ q.readyTime x) := by
  unfold readyPlace at hi
  split at hi
  · rename_i hlast
    cases hi
    rw [take_length, drop_length]
    refine ⟨fun x hx => ?_, nofun⟩
    -- the last one is not ready before any other
    rcases eq_nil_or_concat q.readyList.toList with hnil | ⟨init, b, hinit⟩
    · rw [hnil] at hx
      cases hx
    · have hb : q.readyTime b ≤ q.readyTime r := by
        rw [hinit, concat_eq_append, getLast?_concat] at hlast
        exact of_decide_eq_true hlast
      have horder := h
      unfold InOrder at horder
      rw [hinit, concat_eq_append, pairwise_append] at horder
      rw [hinit, concat_eq_append, mem_append, mem_singleton] at hx
      rcases hx with hx | rfl
      · exact Nat.le_trans (horder.2.2 x hx b (mem_singleton_self b)) hb
      · exact hb
  · obtain ⟨hlt, hfound, hbefore⟩ := findIdx?_eq_some_iff_getElem.mp hi
    have hlater : q.readyTime r < q.readyTime q.readyList.toList[i] := of_decide_eq_true hfound
    constructor
    · intro x hx
      obtain ⟨j, hj, rfl⟩ := mem_take_iff_getElem.mp hx
      have hnot := hbefore j (by omega)
      rw [Bool.not_eq_true, decide_eq_false_iff_not] at hnot
      omega
    · intro x hx
      rw [drop_eq_getElem_cons hlt, mem_cons] at hx
      rcases hx with rfl | hx
      · omega
      · have horder := h.sublist (drop_sublist i _)
        rw [drop_eq_getElem_cons hlt, pairwise_cons] at horder
        have hle := horder.1 x hx
        omega

theorem InOrder.congr (hsub : q'.readyList.toList.Sublist q.readyList.toList)
    (htime : ∀ x ∈ q'.readyList.toList, q'.readyTime x = q.readyTime x) : q'.InOrder := by
  refine (h.sublist hsub).imp_of_mem fun {a b} ha hb hle => ?_
  rw [htime a ha, htime b hb]
  exact hle

/-- A register in its place keeps the order. -/
theorem InOrder.insertReady {i : Nat} (hbefore : ∀ x ∈ q.readyList.toList.take i, q.readyTime x ≤ q.readyTime r)
    (hafter : ∀ x ∈ q.readyList.toList.drop i, q.readyTime r ≤ q.readyTime x) : (q.insertReady r i).InOrder := by
  have horder := h
  unfold InOrder at horder
  rw [← take_append_drop i q.readyList.toList, pairwise_append] at horder
  show (q.readyList.insertAt i r).toList.Pairwise fun a b => q.readyTime a ≤ q.readyTime b
  rw [IterList.toList_insertAt, pairwise_append, pairwise_cons]
  refine ⟨horder.1, ⟨hafter, horder.2.1⟩, fun a ha => ?_⟩
  exact forall_mem_cons.mpr ⟨hbefore a ha, horder.2.2 a ha⟩

theorem InOrder.deallocateOne (hk : q.Kept size) (hs : q.deallocateOne r = some q') : q'.InOrder := by
  obtain ⟨la, lr, n, m, rfl, -, -, -, hmem, -, hsub⟩ := deallocateOne_cases hk hs
  exact h.congr hsub fun x hx => readyTime_setRegister_of_ne (q := q) ((hmem x).mp hx).2

theorem InOrder.setRegister (hm : r ∈ q.readyList.toList → m.readyTime = q.readyTime r) :
    (q.setRegister r m).InOrder := by
  refine h.congr (List.Sublist.refl _) fun x hx => ?_
  by_cases hxr : x = r
  · subst hxr
    show (update q.registers x m x).readyTime = _
    rw [update_self]
    exact hm hx
  · exact readyTime_setRegister_of_ne hxr

theorem InOrder.addToReadyList (hs : q.addToReadyList r = some q') : q'.InOrder := by
  obtain ⟨i, hi, rfl⟩ := addToReadyList_cases hs
  obtain ⟨hbefore, hafter⟩ := readyPlace_splits h hi
  exact h.insertReady hbefore hafter

theorem InOrder.squashOne (hk : q.Kept size) (hs : q.squashOne r = some q') : q'.InOrder := by
  obtain ⟨m, hm, htime, rfl | hfree⟩ := squashOne_cases hs
  · exact h.setRegister fun _ => htime
  · exact (h.setRegister fun _ => htime).deallocateOne (hk.setRegister hm) hfree

/-- **Every call keeps the order**, if it moves no register ahead of one that is ready before it. -/
theorem InOrder.step (hk : q.Kept size) {c : MshrCall} (htimely : q.Timely c) (hs : q.step c = some q') :
    q'.InOrder := by
  cases c with
  | allocate blkAddr blkSize pkt whenReady order =>
    obtain ⟨⟨q₁, r⟩, hq₁, rfl⟩ := map_eq_some_iff.mp hs
    obtain ⟨free, m, q₂, i, hfree, -, rfl, hi, rfl⟩ := allocate_cases hq₁
    have hnew : r ∉ q.readyList.toList := fun hr =>
      hk.apart r (hfree ▸ mem_cons_self ..) ((hk.pending r).mp hr).1
    have horder : (q.setRegister r m).InOrder := h.setRegister fun hr => absurd hr hnew
    obtain ⟨hbefore, hafter⟩ := readyPlace_splits (q := q.setRegister r m) horder hi
    exact horder.insertReady hbefore hafter
  | deallocate r => exact h.deallocateOne hk hs
  | moveToFront r =>
    rcases moveToFront_cases hk hs with rfl | ⟨hidle, l, rfl, -, -, hmem, -, hsub⟩
    · exact h
    · have horder : InOrder { q with readyList := l } := h.congr hsub fun _ _ => rfl
      refine horder.insertReady (fun x hx => ?_) (fun x hx => ?_)
      · cases hx
      · exact htimely hidle x ((hmem x).mp hx).1
  | markInService r pendingDirtyResp =>
    rcases markInService_cases hk hs with hnext | ⟨m, l, -, rfl, -, -, hmem, -, hsub⟩
    · have hkept : (q.setRegister r (q.registers r).popTarget).Kept size := hk.setRegister rfl
      have horder : (q.setRegister r (q.registers r).popTarget).InOrder := h.setRegister fun _ => rfl
      exact horder.deallocateOne hkept hnext
    · exact h.congr hsub fun x hx => readyTime_setRegister_of_ne (q := q) ((hmem x).mp hx).2
  | markPending r =>
    have hmark : q.markPending r = some q' := hs
    obtain ⟨-, hmark⟩ := ite_none_right_eq_some.mp hmark
    refine InOrder.addToReadyList ?_ hmark
    exact h.setRegister fun _ => rfl
  | squash threadNum =>
    have hsquash : q.squash threadNum = some q' := hs
    unfold MshrQueue.squash at hsquash
    split at hsquash
    · refine ((exec_iff.mp hsquash).inv (P := fun q => q.Kept size ∧ q.InOrder) ?_ ⟨hk, h⟩).2
      exact fun _ _ _ hko hstep => ⟨hko.1.squashOne hstep, hko.2.squashOne hko.1 hstep⟩
    · cases hsquash
      exact h
  | register r op =>
    obtain ⟨m, hm, rfl⟩ := map_eq_some_iff.mp hs
    refine h.setRegister fun hr => (RegisterOp.keeps hm).2 ?_
    exact ((hk.pending r).mp hr).2

end

/-! ## The books in every run -/

/-- **Every register is free or allocated**, and not both. -/
theorem Kept.partition (h : q.Kept size) : (q.freeList ++ q.allocatedList.toList).Perm (List.range size) := by
  refine (perm_ext_iff_of_nodup ?_ nodup_range).mpr fun r => ?_
  · exact nodup_append.mpr ⟨h.free, h.alloc.nodup, fun a ha b hb heq => h.apart a ha (heq ▸ hb)⟩
  · rw [mem_append, mem_range, h.all r]

/-- The ready list has the allocated registers that are not in service. -/
theorem Kept.readyPerm (h : q.Kept size) :
    q.readyList.toList.Perm (q.allocatedList.toList.filter fun r => !q.inService r) := by
  refine (perm_ext_iff_of_nodup h.ready.nodup (h.alloc.nodup.filter _)).mpr fun r => ?_
  rw [h.pending r, mem_filter, Bool.not_eq_true']

theorem Kept.countInService (h : q.Kept size) : q.inServiceEntries = q.allocatedList.toList.countP q.inService := by
  have hready := h.readyPerm.length_eq
  rw [← countP_eq_length_filter] at hready
  have hsplit := length_eq_countP_add_countP q.inService (l := q.allocatedList.toList)
  have hentries := h.entries
  simp only [Bool.not_eq_true, Bool.decide_eq_false] at hsplit
  omega

/-- **The bookkeeping of the queue.**  In every run the free and the allocated list partition the
    registers, the ready list holds the allocated registers that are not in service, the counters
    count the allocated registers and those in service, and `addToReadyList` finds a place in
    whatever state it is called.  The ready list is in the order of `readyTime` in every run in which
    no register is moved to the front ahead of one that is ready before it. -/
theorem queue_books_kept {numEntries reserve : Nat} {cs : List MshrCall}
    (hrun : Run (stepOf step) (new numEntries reserve) cs q) :
    (q.freeList ++ q.allocatedList.toList).Perm (List.range (numEntries + reserve - 1)) ∧
      q.readyList.toList.Perm (q.allocatedList.toList.filter fun r => !q.inService r) ∧
      q.allocated = q.allocatedList.toList.length ∧ q.inServiceEntries = q.allocatedList.toList.countP q.inService ∧
      (∀ (p : MshrQueue) (r : Nat), (p.addToReadyList r).isSome = true) ∧
      (Run (Guarded (stepOf step) Timely) (new numEntries reserve) cs q → q.InOrder) := by
  have hkept : q.Kept (numEntries + reserve - 1) :=
    hrun.inv (P := fun q => q.Kept (numEntries + reserve - 1)) (fun _ _ _ h hs => h.step hs)
      (kept_new numEntries reserve)
  refine ⟨hkept.partition, hkept.readyPerm, hkept.allocated, hkept.countInService,
    addToReadyList_isSome, fun htimely => ?_⟩
  -- the order is kept by a call in a state whose books are in order
  refine (htimely.inv (P := fun q => q.Kept (numEntries + reserve - 1) ∧ q.InOrder) ?_ ?_).2
  · exact fun _ _ _ h hs => ⟨h.1.step hs.1, h.2.step h.1 hs.2 hs.1⟩
  · exact ⟨kept_new numEntries reserve, List.Pairwise.nil⟩

/-- Two reads are allocated, the later one first; the one that is ready goes into service, gets a
    deferred target while it is there, and is sent again. -/
def resent : List MshrCall :=
  [.allocate 64 64 (MshrSys.miss 1 .readReq false) 9 0,
    .allocate 0 64 (MshrSys.miss 2 .readReq false) 5 1, .markInService 1 false,
    .register 1 (.allocateTarget (MshrSys.miss 3 .writeReq false) 6 2), .register 1 (.handleFill true),
    .register 1 .popTarget, .register 1 (.promoteDeferredTargets 8), .markPending 1]

theorem queue_books_kept_resent : ∃ q, Run (stepOf step) (new 2 2) resent q ∧
      (q.freeList ++ q.allocatedList.toList).Perm (List.range 3) ∧
      q.readyList.toList = [1, 0] ∧ q.InOrder ∧ q.allocated = 2 ∧ q.inServiceEntries = 0 := by
  have hobs : (exec (guardFn step Timely) (new 2 2) resent).map
      (fun q => (q.readyList.toList, q.allocated, q.inServiceEntries)) = some ([1, 0], 2, 0) := by
    decide +kernel
  obtain ⟨q, hq, hd⟩ := map_eq_some_iff.mp hobs
  have hrun := exec_guardFn_iff.mp hq
  obtain ⟨hpartition, -, -, -, -, horder⟩ := queue_books_kept hrun.unguard
  exact ⟨q, hrun.unguard, hpartition, congrArg Prod.fst hd, horder hrun,
    congrArg (fun x => x.2.1) hd, congrArg (fun x => x.2.2) hd⟩

/-- **A register is moved to the front ahead of one that is ready before it.** -/
theorem moved_ahead_of_ready : ∃ q, Run (stepOf step) (new 2 1) [.allocate 0 64 (MshrSys.miss 1 .readReq false) 5 0,
          .allocate 64 64 (MshrSys.miss 2 .readReq false) 9 1, .moveToFront 1] q ∧ ¬ q.InOrder := by
  simp only [← exec_iff]
  refine exec_observe (fun q => (q.readyList.toList, q.readyTime 0, q.readyTime 1)) ([1, 0], 5, 9)
    (by decide +kernel) fun q _ hd horder => ?_
  have hlist : q.readyList.toList = [1, 0] := congrArg Prod.fst hd
  have hfirst : q.readyTime 0 = 5 := congrArg (fun x => x.2.1) hd
  have hsecond : q.readyTime 1 = 9 := congrArg (fun x => x.2.2) hd
  unfold InOrder at horder
  rw [hlist, pairwise_cons] at horder
  have hle := horder.1 0 (mem_singleton_self 0)
  omega

end MshrQueue

end NvpSim.Mem
