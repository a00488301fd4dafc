/-
  Load-linked and store-conditional at one cache block.

  The locks of a block are a FUNCTION of the requests it satisfied (`locksOf`): a load-linked puts its range on
  the list, a store or store-conditional, successful or not, takes all ranges off that it overlaps.

  A lock is on the list exactly if its load-linked survived the stores since (`mem_locksOf`), and that is what the
  code does (`satisfy_locks`).  A SWAP writes without touching the list: so a store-conditional can succeed on
  bytes that have changed, and only so.
-/
import NvpSim.Lib.Run
import NvpSim.Lib.Timeline
import NvpSim.Mem.Cache

namespace NvpSim.Mem

open NvpSim.Lib List Option

/-! ## The history of a block -/

/-- A request as the block got it, and whether a store-conditional reported success. -/
structure Performed where
  pkt : Packet
  ok : Bool

/-- The bytes of two requests overlap. -/
def Overlap (r r' : Request) : Prop :=
  r.paddr < r'.paddr + r'.size ∧ r'.paddr < r.paddr + r.size

instance (r r' : Request) : Decidable (Overlap r r') := inferInstanceAs (Decidable (_ ∧ _))

/-- The bytes of `r'` are among those of `r`. -/
def Covers (r r' : Request) : Prop :=
  r.paddr ≤ r'.paddr ∧ r'.paddr + r'.size ≤ r.paddr + r.size

instance (r r' : Request) : Decidable (Covers r r') := inferInstanceAs (Decidable (_ ∧ _))

namespace Performed

/-- A load-linked of the context of `req` that covers its bytes. -/
def Links (e : Performed) (req : Request) : Prop :=
  e.pkt.cmd = .loadLockedReq ∧ e.pkt.req.contextId = req.contextId ∧ Covers e.pkt.req req

/-- A store, a successful store-conditional or a swap to some byte of `req`. -/
def Intrudes (e : Performed) (req : Request) : Prop :=
  (e.pkt.cmd = .writeReq ∨ (e.pkt.cmd = .storeCondReq ∧ e.ok = true) ∨ e.pkt.cmd = .swapReq) ∧ Overlap e.pkt.req req

/-- What takes the lock of `req` off the list: a store or any store-conditional to some byte of
    it. -/
def Clears (e : Performed) (req : Request) : Prop :=
  (e.pkt.cmd = .writeReq ∨ e.pkt.cmd = .storeCondReq) ∧ Overlap e.pkt.req req

end Performed

/-- **A store-conditional that may succeed**: an earlier load-linked of the context covers it, and no
    store, successful store-conditional or swap has touched its bytes since.  The log has the newest
    request first. -/
def Fresh (log : List Performed) (req : Request) : Prop :=
  Since (fun ll => ll.Links req) (fun _ e => ¬ e.Intrudes req) log

/-- A load-linked of the context covers `req`, and no store-conditional or store has touched any byte
    that it linked since. -/
def Survives (log : List Performed) (req : Request) : Prop :=
  Since (fun ll => ll.Links req) (fun ll e => ¬ e.Clears ll.pkt.req) log

/-- A swap has touched the bytes of `req` since the LAST load-linked of the context that covers
    it. -/
def Swapped (log : List Performed) (req : Request) : Prop :=
  ∃ newer ll older, log = newer ++ ll :: older ∧ ll.Links req ∧
    (∀ e ∈ newer, ¬ e.Links req) ∧ ∃ e ∈ newer, e.pkt.cmd = .swapReq ∧ Overlap e.pkt.req req

/-- A request of a CPU: a load, load-linked, store, store-conditional or swap at the address of its
    `Request`, of at least one byte. -/
def CpuAccess (pkt : Packet) : Prop :=
  pkt.cmd ∈ [MemCmd.readReq, .loadLockedReq, .writeReq, .storeCondReq, .swapReq] ∧
    pkt.req.paddr = pkt.addr ∧ pkt.req.size = pkt.size ∧ 0 < pkt.size

instance (pkt : Packet) : Decidable (CpuAccess pkt) := inferInstanceAs (Decidable (_ ∧ _ ∧ _ ∧ _))

/-- A request, and how the cache asks the block to satisfy it. -/
structure BlockRequest where
  pkt : Packet
  deferredResponse : Bool
  pendingDowngrade : Bool

/-- A block, and what it satisfied so far, the newest first. -/
structure TracedBlk where
  blk : CacheBlk
  log : List Performed

namespace TracedBlk

/-- A block that was filled has no locks yet. -/
def start (blk : CacheBlk) : TracedBlk := ⟨{ blk with lockList := [] }, []⟩

/-- Satisfy a request. -/
def step (p : CacheParams) (t : TracedBlk) (r : BlockRequest) : Option TracedBlk :=
  (Cache.satisfyCpuSideRequest p r.pkt t.blk r.deferredResponse r.pendingDowngrade).map
    fun (blk, pkt) => ⟨blk, ⟨r.pkt, pkt.req.extraData = 1⟩ :: t.log⟩

end TracedBlk

/-! ## The lock list as a function of the history -/

/-- The locks that a history leaves. -/
def locksOf : List Performed → List Lock
  | [] => []
  | e :: log =>
    if e.pkt.cmd = .loadLockedReq then Lock.ofRequest e.pkt.req :: locksOf log
    else if e.pkt.cmd = .writeReq ∨ e.pkt.cmd = .storeCondReq then
      (locksOf log).filter fun l => !l.overlapping e.pkt.req
    else locksOf log

section Locks

variable {r r' : Request} {log : List Performed}

theorem overlapping_ofRequest (h : 0 < r.size) (h' : 0 < r'.size) :
    (Lock.ofRequest r).overlapping r' = true ↔ Overlap r' r := by
  have hnat : ∀ a n a' n' : Nat, 0 < n → 0 < n' →
      (a' ≤ a + n - 1 ∧ a ≤ a' + n' - 1 ↔ a' < a + n ∧ a < a' + n') := by omega
  simp only [Lock.overlapping, Bool.and_eq_true, decide_eq_true_eq]
  exact hnat _ _ _ _ h h'

theorem matchesContext_ofRequest (h : 0 < r.size) (h' : 0 < r'.size) : (Lock.ofRequest r).matchesContext r' = true ↔
      r.contextId = r'.contextId ∧ Covers r r' := by
  have hnat : ∀ a n a' n' : Nat, 0 < n → 0 < n' →
      (a ≤ a' ∧ a' + n' - 1 ≤ a + n - 1 ↔ a ≤ a' ∧ a' + n' ≤ a + n) := by omega
  simp only [Lock.matchesContext, Bool.and_eq_true, decide_eq_true_eq, and_assoc]
  exact and_congr_right fun _ => hnat _ _ _ _ h h'

/-- **A lock is on the list if and only if its load-linked survived the stores since.** -/
theorem mem_locksOf {log : List Performed} (hsize : ∀ e ∈ log, 0 < e.pkt.req.size) {l : Lock} : l ∈ locksOf log ↔
      Since (fun ll => ll.pkt.cmd = .loadLockedReq ∧ l = Lock.ofRequest ll.pkt.req)
        (fun ll e => ¬ e.Clears ll.pkt.req) log := by
  induction log with
  | nil => simp [locksOf, Since]
  | cons e log ih =>
    have hlog := ih (forall_mem_cons.mp hsize).2
    rw [since_cons]
    unfold locksOf
    by_cases hll : e.pkt.cmd = .loadLockedReq
    · rw [if_pos hll, mem_cons, hlog]
      have hnone : ∀ r, ¬ e.Clears r := by
        rintro r ⟨hcmd, -⟩
        rw [hll] at hcmd
        simp at hcmd
      simp [hll, hnone]
    · rw [if_neg hll]
      by_cases hstore : e.pkt.cmd = .writeReq ∨ e.pkt.cmd = .storeCondReq
      · rw [if_pos hstore, mem_filter, hlog]
        constructor
        · rintro ⟨⟨newer, ll, older, rfl, ⟨hcmd, rfl⟩, hQ⟩, hov⟩
          refine Or.inr ⟨newer, ll, older, rfl, ⟨⟨hcmd, rfl⟩, fun hcl => ?_⟩, hQ⟩
          have hpos := hsize ll (by simp)
          rw [(overlapping_ofRequest hpos (hsize e mem_cons_self)).mpr hcl.2] at hov
          cases hov
        · rintro (⟨hcmd, -⟩ | ⟨newer, ll, older, rfl, ⟨⟨hcmd, rfl⟩, hQe⟩, hQ⟩)
          · exact absurd hcmd hll
          · refine ⟨⟨newer, ll, older, rfl, ⟨hcmd, rfl⟩, hQ⟩, ?_⟩
            rw [Bool.not_eq_true', ← Bool.not_eq_true,
              overlapping_ofRequest (hsize ll (by simp)) (hsize e mem_cons_self)]
            exact fun hov => hQe ⟨hstore, hov⟩
      · -- loads and swaps leave the list alone
        rw [if_neg hstore, hlog]
        have hnone : ∀ r, ¬ e.Clears r := fun r hcl => hstore hcl.1
        simp [hll, hnone]

theorem any_matches_iff (hsize : ∀ e ∈ log, 0 < e.pkt.req.size) (h : 0 < r.size) :
    (locksOf log).any (fun l => l.matchesContext r) = true ↔ Survives log r := by
  rw [List.any_eq_true]
  constructor
  · rintro ⟨l, hl, hmatch⟩
    obtain ⟨newer, ll, older, rfl, ⟨hcmd, rfl⟩, hQ⟩ := (mem_locksOf hsize).mp hl
    have hpos := hsize ll (by simp)
    exact ⟨newer, ll, older, rfl, ⟨hcmd, (matchesContext_ofRequest hpos h).mp hmatch⟩, hQ⟩
  · rintro ⟨newer, ll, older, rfl, ⟨hcmd, hlinks⟩, hQ⟩
    have hpos := hsize ll (by simp)
    exact ⟨_, (mem_locksOf hsize).mpr ⟨newer, ll, older, rfl, ⟨hcmd, rfl⟩, hQ⟩,
      (matchesContext_ofRequest hpos h).mpr hlinks⟩

end Locks

/-! ## One request -/

section Satisfy

variable {p : CacheParams} {pkt pkt' : Packet} {blk blk' : CacheBlk} {deferred pending : Bool}

theorem satisfyBlockRead_locks (hcmd : pkt.cmd.needsExclusive = false)
    (h : Cache.satisfyBlockRead p pkt blk deferred pending = some (blk', pkt')) : blk'.lockList = blk.lockList := by
  unfold Cache.satisfyBlockRead at h
  rw [hcmd, if_neg (by simp)] at h
  split at h
  · split at h
    · split at h
      · obtain ⟨_, -, heq⟩ := map_eq_some_iff.mp h
        cases heq
        rfl
      · cases h
        rfl
    · cases h
      rfl
  · cases h
    rfl

theorem satisfy_cases (h : Cache.satisfyCpuSideRequest p pkt blk deferred pending = some (blk', pkt')) :
    (pkt.cmd = .swapReq → Cache.cmpAndSwap p blk pkt = some (blk', pkt')) ∧
    (pkt.cmd = .writeReq ∨ pkt.cmd = .storeCondReq → blk'.lockList = (blk.clearLoadLocks pkt.req).lockList ∧
        pkt' = pkt.setStoreResult (blk.checkWrite pkt).2.2) ∧ (pkt.cmd = .readReq ∨ pkt.cmd = .loadLockedReq →
      blk'.lockList = (if pkt.cmd.isLLSC then blk.trackLoadLocked pkt else blk).lockList) := by
  unfold Cache.satisfyCpuSideRequest at h
  dsimp only at h
  split at h
  · refine ⟨fun hcmd => ?_, fun hcmd => ?_, fun hcmd => ?_⟩
    · rw [if_pos hcmd] at h
      exact h
    · have hbranch : pkt.cmd ≠ .swapReq ∧
          (pkt.cmd.isWrite && (!pkt.cmd.isWriteInvalidate || p.isTopLevel)) = true := by
        rcases hcmd with hcmd | hcmd <;> rw [hcmd] <;> exact ⟨by decide, rfl⟩
      rw [if_neg hbranch.1, if_pos hbranch.2] at h
      split at h
      · cases h
        refine ⟨?_, rfl⟩
        show (if (blk.checkWrite pkt).2.2 then (blk.checkWrite pkt).1.writeData _ _
          else (blk.checkWrite pkt).1).lockList = _
        split <;> rfl
      · cases h
    · have hbranch : pkt.cmd ≠ .swapReq ∧ (pkt.cmd.isWrite && (!pkt.cmd.isWriteInvalidate || p.isTopLevel)) = false ∧
          pkt.cmd.isRead = true ∧ pkt.cmd.needsExclusive = false := by
        rcases hcmd with hcmd | hcmd <;> rw [hcmd] <;> exact ⟨by decide, rfl, rfl, rfl⟩
      rw [if_neg hbranch.1, if_neg (by rw [hbranch.2.1]; decide), if_pos hbranch.2.2.1] at h
      generalize (if pkt.cmd.isLLSC then blk.trackLoadLocked pkt else blk) = b at h ⊢
      split at h
      · have hkeep : (pkt.setData b.data (pkt.getOffset p.blkSize)).cmd.needsExclusive = false :=
          hbranch.2.2.2
        exact satisfyBlockRead_locks hkeep h
      · cases h
        rfl
  · cases h

/-- **What a request does to the locks**: a load-linked adds its own, a store or store-conditional
    takes off those it overlaps. -/
theorem satisfy_locks (hpkt : CpuAccess pkt)
    (h : Cache.satisfyCpuSideRequest p pkt blk deferred pending = some (blk', pkt')) : blk'.lockList =
      if pkt.cmd = .loadLockedReq then Lock.ofRequest pkt.req :: blk.lockList
      else if pkt.cmd = .writeReq ∨ pkt.cmd = .storeCondReq then
        blk.lockList.filter fun l => !l.overlapping pkt.req
      else blk.lockList := by
  obtain ⟨hswap, hstore, hload⟩ := satisfy_cases h
  have hcases := hpkt.1
  simp only [mem_cons, not_mem_nil, or_false] at hcases
  rcases hcases with hcmd | hcmd | hcmd | hcmd | hcmd
  · rw [hload (Or.inl hcmd), hcmd]
    rfl
  · rw [hload (Or.inr hcmd), hcmd]
    rfl
  · rw [(hstore (Or.inl hcmd)).1, hcmd]
    rfl
  · rw [(hstore (Or.inr hcmd)).1, hcmd]
    rfl
  · -- `cmpAndSwap` writes the bytes and never looks at the locks
    have hcas := hswap hcmd
    obtain ⟨-, hcas⟩ := ite_none_right_eq_some.mp hcas
    obtain ⟨overwrite, -, heq⟩ := map_eq_some_iff.mp hcas
    cases heq
    rw [hcmd]
    cases overwrite <;> rfl

theorem storeCond_finds (hcmd : pkt.cmd = .storeCondReq)
    (h : Cache.satisfyCpuSideRequest p pkt blk deferred pending = some (blk', pkt')) : pkt'.req.extraData = 1 ↔
      blk.lockList.any (fun l => l.matchesContext pkt.req) = true := by
  obtain ⟨-, rfl⟩ := (satisfy_cases h).2.1 (Or.inr hcmd)
  have hllsc : pkt.cmd.isLLSC = true := by rw [hcmd]; rfl
  rw [CacheBlk.checkWrite, Packet.setStoreResult, if_pos hllsc]
  rw [if_pos hllsc]
  cases blk.lockList.any (fun l => l.matchesContext pkt.req) <;> simp [Request.setExtraData]

end Satisfy

/-! ## Every history -/

namespace TracedBlk

variable {p : CacheParams} {blk : CacheBlk} {t t' : TracedBlk} {rs : List BlockRequest}

/-- The locks are those the history leaves, and every request had bytes. -/
structure Inv (t : TracedBlk) : Prop where
  locks : t.blk.lockList = locksOf t.log
  sizes : ∀ e ∈ t.log, 0 < e.pkt.req.size

theorem Inv.step {r : BlockRequest} (h : t.Inv) (hpkt : CpuAccess r.pkt) (hs : t.step p r = some t') : t'.Inv := by
  obtain ⟨⟨blk', pkt'⟩, hsat, rfl⟩ := map_eq_some_iff.mp hs
  refine ⟨?_, forall_mem_cons.mpr ⟨?_, h.sizes⟩⟩
  · show blk'.lockList = locksOf (_ :: t.log)
    rw [satisfy_locks hpkt hsat, h.locks]
    rfl
  · show 0 < r.pkt.req.size
    rw [hpkt.2.2.1]
    exact hpkt.2.2.2

theorem inv_start (blk : CacheBlk) : (start blk).Inv :=
  ⟨rfl, fun e he => by cases he⟩

theorem inv_of_run (h : Run (Guarded (stepOf (step p)) fun _ r => CpuAccess r.pkt) (start blk) rs t) : t.Inv :=
  h.inv (P := Inv) (fun _ _ _ hinv hs => hinv.step hs.2 hs.1) (inv_start blk)

end TracedBlk

section Stale

variable {log : List Performed} {req : Request}

theorem Performed.Clears.of_links {e ll : Performed}
    (hcmd : e.pkt.cmd = .writeReq ∨ e.pkt.cmd = .storeCondReq) (hov : Overlap e.pkt.req req)
    (hll : ll.Links req) : e.Clears ll.pkt.req := by
  refine ⟨hcmd, ?_⟩
  obtain ⟨-, -, hlow, hhigh⟩ := hll
  exact ⟨Nat.lt_of_lt_of_le hov.1 hhigh, Nat.lt_of_le_of_lt hlow hov.2⟩

theorem Survives.fresh (h : Survives log req) (hswap : ¬ Swapped log req) : Fresh log req := by
  obtain ⟨newer₀, ll₀, older₀, hlog₀, hll₀, hclear⟩ := h
  have hsome : ∃ x ∈ log, x.Links req := ⟨ll₀, by rw [hlog₀]; simp, hll₀⟩
  obtain ⟨newer, ll, older, hlog, hll, hlast⟩ := exists_last hsome
  refine ⟨newer, ll, older, hlog, hll, fun e he hint => ?_⟩
  have he₀ : e ∈ newer₀ := mem_newer_of_last hlog hlast hlog₀ hll₀ he
  obtain ⟨hcmd, hov⟩ := hint
  rcases hcmd with hcmd | ⟨hcmd, -⟩ | hcmd
  · exact hclear e he₀ (.of_links (Or.inl hcmd) hov hll₀)
  · exact hclear e he₀ (.of_links (Or.inr hcmd) hov hll₀)
  · exact hswap ⟨newer, ll, older, hlog, hll, hlast, e, he, hcmd, hov⟩

theorem Swapped.not_fresh (h : Swapped log req) : ¬ Fresh log req := by
  obtain ⟨newer, ll, older, hlog, -, hlast, e, he, hcmd, hov⟩ := h
  rintro ⟨newer', ll', older', hlog', hll', hquiet⟩
  have he' : e ∈ newer' := mem_newer_of_last hlog hlast hlog' hll' he
  exact hquiet e he' ⟨Or.inr (Or.inr hcmd), hov⟩

end Stale

/-- **Stale store-conditionals get through because of swaps, and only because of them.**  After every
    history of a block, it is true of a store-conditional that it succeeds only if it is fresh — UNLESS
    a load-linked that covers it survived the stores while a swap touched its bytes since the last
    load-linked; and then it is false. -/
theorem stale_only_by_swap {p : CacheParams} {blk : CacheBlk} {rs : List BlockRequest} {t : TracedBlk}
    (h : Run (Guarded (stepOf (TracedBlk.step p)) fun _ r => CpuAccess r.pkt) (TracedBlk.start blk) rs t)
    {pkt pkt' : Packet} {blk' : CacheBlk} {deferred pending : Bool} (hpkt : CpuAccess pkt)
    (hcmd : pkt.cmd = .storeCondReq)
    (hsat : Cache.satisfyCpuSideRequest p pkt t.blk deferred pending = some (blk', pkt')) :
    (pkt'.req.extraData = 1 → Fresh t.log pkt.req) ↔ ¬ (Survives t.log pkt.req ∧ Swapped t.log pkt.req) := by
  have hinv := TracedBlk.inv_of_run h
  have hsize : 0 < pkt.req.size := by
    rw [hpkt.2.2.1]
    exact hpkt.2.2.2
  rw [storeCond_finds hcmd hsat, hinv.locks, any_matches_iff hinv.sizes hsize]
  constructor
  · rintro hfresh ⟨hsurvives, hswapped⟩
    exact hswapped.not_fresh (hfresh hsurvives)
  · intro hnot hsurvives
    exact hsurvives.fresh fun hswapped => hnot ⟨hsurvives, hswapped⟩

/-- A writable block of zeroes. -/
def demoBlk : CacheBlk := ⟨true, true, true, false, fun _ => 0, []⟩

/-- A request of context `c` for 8 bytes at address `a`. -/
def demoBlockRequest (cmd : MemCmd) (c : Int) (a : Addr) (v : Nat) : BlockRequest :=
  ⟨Packet.ofRequest ⟨a, 8, c, 0, false, false, false, false, false⟩ cmd (bytesOf v), false, false⟩

/-- `stale_only_by_swap` at a history without swaps to the linked bytes: context 0 links, context 1
    stores elsewhere, and the store-conditional of context 0 succeeds and is fresh. -/
theorem stale_only_by_swap_store_elsewhere :
    ∃ t blk' pkt', exec (guardFn (TracedBlk.step ⟨64, true⟩) fun _ r => CpuAccess r.pkt) (TracedBlk.start demoBlk)
        [demoBlockRequest .loadLockedReq 0 0 0, demoBlockRequest .writeReq 1 8 7] = some t ∧
      Cache.satisfyCpuSideRequest ⟨64, true⟩ (demoBlockRequest .storeCondReq 0 0 5).pkt t.blk false
        false = some (blk', pkt') ∧ pkt'.req.extraData = 1 ∧
      ((pkt'.req.extraData = 1 → Fresh t.log (demoBlockRequest .storeCondReq 0 0 5).pkt.req) ↔
        ¬ (Survives t.log (demoBlockRequest .storeCondReq 0 0 5).pkt.req ∧
          Swapped t.log (demoBlockRequest .storeCondReq 0 0 5).pkt.req)) := by
  have hrun : ((exec (guardFn (TracedBlk.step ⟨64, true⟩) fun _ r => CpuAccess r.pkt) (TracedBlk.start demoBlk)
      [demoBlockRequest .loadLockedReq 0 0 0, demoBlockRequest .writeReq 1 8 7]).bind fun t =>
        (Cache.satisfyCpuSideRequest ⟨64, true⟩ (demoBlockRequest .storeCondReq 0 0 5).pkt t.blk
          false false).map fun r => r.2.req.extraData) = some 1 := by decide +kernel
  obtain ⟨t, ht, hsc⟩ := bind_eq_some_iff.mp hrun
  obtain ⟨⟨blk', pkt'⟩, hsat, hextra⟩ := map_eq_some_iff.mp hsc
  exact ⟨t, blk', pkt', ht, hsat, hextra, stale_only_by_swap (exec_guardFn_iff.mp ht) (by decide) rfl hsat⟩

/-- **A swap goes unnoticed by a block**: context 0 links 8 bytes, context 1 swaps them, and the
    store-conditional of context 0 overwrites what context 1 has put there. -/
theorem block_store_conditional_after_swap :
    ∃ t blk' pkt', exec (guardFn (TracedBlk.step ⟨64, true⟩) fun _ r => CpuAccess r.pkt) (TracedBlk.start demoBlk)
        [demoBlockRequest .loadLockedReq 0 0 0, demoBlockRequest .swapReq 1 0 7] = some t ∧ t.blk.data 0 = 7 ∧
      Cache.satisfyCpuSideRequest ⟨64, true⟩ (demoBlockRequest .storeCondReq 0 0 5).pkt t.blk false
        false = some (blk', pkt') ∧ pkt'.req.extraData = 1 ∧ blk'.data 0 = 5 ∧
      ¬ Fresh t.log (demoBlockRequest .storeCondReq 0 0 5).pkt.req := by
  have hrun : ((exec (guardFn (TracedBlk.step ⟨64, true⟩) fun _ r => CpuAccess r.pkt) (TracedBlk.start demoBlk)
      [demoBlockRequest .loadLockedReq 0 0 0, demoBlockRequest .swapReq 1 0 7]).bind fun t =>
        (Cache.satisfyCpuSideRequest ⟨64, true⟩ (demoBlockRequest .storeCondReq 0 0 5).pkt t.blk
          false false).map fun r => (r.2.req.extraData, r.1.data 0, t.blk.data 0,
            t.log.map fun e => (e.pkt.cmd, e.pkt.req))) =
      some (1, 5, 7, [(.swapReq, (demoBlockRequest .swapReq 1 0 7).pkt.req),
        (.loadLockedReq, (demoBlockRequest .loadLockedReq 0 0 0).pkt.req)]) := by decide +kernel
  obtain ⟨t, ht, hsc⟩ := bind_eq_some_iff.mp hrun
  obtain ⟨⟨blk', pkt'⟩, hsat, hobs⟩ := map_eq_some_iff.mp hsc
  simp only [Prod.mk.injEq] at hobs
  obtain ⟨hextra, hdata', hdata, hlog⟩ := hobs
  refine ⟨t, blk', pkt', ht, hdata, hsat, hextra, hdata', Swapped.not_fresh ?_⟩
  -- the swap is the one request since the load-linked
  obtain ⟨swap, rest, heq, hswap, hrest⟩ := map_eq_cons_iff.mp hlog
  obtain ⟨ll, rest', rfl, hll, hnil⟩ := map_eq_cons_iff.mp hrest
  cases map_eq_nil_iff.mp hnil
  simp only [Prod.mk.injEq] at hswap hll
  refine ⟨[swap], ll, [], heq, ⟨hll.1, ?_, ?_⟩, ?_, swap, mem_singleton_self _, hswap.1, ?_⟩
  · rw [hll.2]
    rfl
  · rw [hll.2]
    decide
  · intro e he hlinks
    rw [mem_singleton.mp he] at hlinks
    exact absurd (hlinks.1.symm.trans hswap.1) (by decide)
  · rw [hswap.2]
    decide

end NvpSim.Mem
