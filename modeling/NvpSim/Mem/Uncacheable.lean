/-
  Uncacheable writes on the crossbar, in atomic mode.

  Two things can STOP such a write on its way to the memory: a cache that holds the line dirty answers it and
  drops the bytes; and a cache the write passes through PROMOTES a whole-line write to a write-invalidate, which
  the memory ignores.  And a plain write does not invalidate: the copies in other caches, and the issuer's
  copies of lines after the first, stay as they are (`Survives`).
-/
import NvpSim.Mem.Coherence

namespace NvpSim.Mem

open NvpSim.Lib Cache Option Function

/-! ## Blocks kept and blocks gone -/

/-- The block is as it was, but for its load-linked locks. -/
structure Kept (b b' : CacheBlk) : Prop where
  valid : b'.isValid = b.isValid
  writable : b'.isWritable = b.isWritable
  readable : b'.isReadable = b.isReadable
  dirty : b'.isDirty = b.isDirty
  data : b'.data = b.data

theorem Kept.rfl {b : CacheBlk} : Kept b b := ⟨Eq.refl _, Eq.refl _, Eq.refl _, Eq.refl _, Eq.refl _⟩

/-- The block has no marks any more. -/
structure Gone (b b' : CacheBlk) : Prop where
  valid : b'.isValid = false
  dirty : b'.isDirty = false
  data : b'.data = b.data

theorem Gone.writable {b b' : CacheBlk} (h : Gone b b') : b'.isWritable = false := by
  have hv := h.valid
  unfold CacheBlk.isValid at hv
  rw [CacheBlk.isWritable, hv, Bool.and_false]

namespace System

variable {n : Nat} {p : CacheParams} {s s' : System n} {i : Fin n} {k : Key} {pkt rd w : Packet}
  {master : Option (Fin n)}

theorem Good.shrink (h : Good p s) (hcfg : SameConfig s.mem s'.mem)
    (hblk : ∀ j k, Kept (s.caches j k) (s'.caches j k) ∨ Gone (s.caches j k) (s'.caches j k)) : Good p s' := by
  -- a mark that is there now was there before
  have hvalid : ∀ j k, (s'.caches j k).isValid = true → Kept (s.caches j k) (s'.caches j k) := by
    intro j k hv
    rcases hblk j k with hk | hg
    · exact hk
    · rw [hg.valid] at hv
      cases hv
  have hwritable : ∀ j k, (s'.caches j k).isWritable = true →
      (s.caches j k).isWritable = true ∧ (s'.caches j k).isValid = true := by
    intro j k hw
    have hv : (s'.caches j k).isValid = true := (Bool.and_eq_true_iff.mp hw).2
    exact ⟨(hvalid j k hv).writable.symm.trans hw, hv⟩
  have hdirty : ∀ j k, (s'.caches j k).isDirty = true →
      (s.caches j k).isDirty = true ∧ (s'.caches j k).isValid = true := by
    intro j k hd
    rcases hblk j k with hk | hg
    · have hd' : (s.caches j k).isDirty = true := hk.dirty.symm.trans hd
      exact ⟨hd', hk.valid.trans ((h.lines k).valid_of_dirty j hd')⟩
    · rw [hg.dirty] at hd
      cases hd
  refine ⟨fun k => ⟨fun j hw => (hwritable j k hw).2, fun j hd => (hdirty j k hd).2, ?_, ?_⟩,
    fun j k hv => ?_, fun j k hv => ?_, hcfg.2.2.trans h.real⟩
  · intro j l hw hv
    exact (h.lines k).sole j l (hwritable j k hw).1 ((hvalid l k hv).valid.symm.trans hv)
  · intro j l hd hd'
    exact (h.lines k).owner j l (hdirty j k hd).1 (hdirty l k hd').1
  · have hk := hvalid j k hv
    rw [hk.readable]
    exact h.readable j k (hk.valid.symm.trans hv)
  · exact (h.placed j k ((hvalid j k hv).valid.symm.trans hv)).imp_right hcfg.inMem

/-! ## Requests that the crossbar gets as they are -/

/-- A read within one line, cacheable or not. -/
structure ReadRequest (p : CacheParams) (m : AbstractMemory) (rd : Packet) : Prop where
  cmd : rd.cmd = .readReq
  req : rd.req.paddr = rd.addr ∧ rd.req.isSecure = rd.isSecure
  fits : rd.getOffset p.blkSize + rd.size ≤ p.blkSize
  fresh : rd.sharedAsserted = false ∧ rd.memInhibitAsserted = false
  inMem : InMem p m (rd.key p.blkSize).1

variable {m : AbstractMemory} {s₀ s₁ : System n}

theorem ReadRequest.range (h : ReadRequest p m rd) : m.start ≤ rd.addr ∧ rd.addr + rd.size - 1 ≤ m.finish := by
  obtain ⟨hstart, hfinish⟩ := h.inMem
  have hfits := h.fits
  have haddr := key_add_offset rd p.blkSize
  rw [← haddr]
  constructor
  · exact Nat.le_trans hstart (Nat.le_add_right _ _)
  · refine Nat.le_trans (Nat.sub_le_sub_right ?_ 1) hfinish
    rw [Nat.add_assoc]
    exact Nat.add_le_add_left hfits _

theorem Good.oneAnswer (h : Good p s) (pkt : Packet) (src : Option (Fin n)) : OneAnswer p s pkt src := by
  intro j l _ _ hj hl
  simp only [Packet.answers, Bool.and_eq_true] at hj hl
  exact (h.lines _).owner j l hj.1.1.2 hl.1.1.2

theorem answers_iff_dirty (h : pkt.cmd = .readReq ∨ pkt.cmd = .writeReq) (b : CacheBlk) :
    pkt.answers b = true ↔ b.isValid = true ∧ b.isDirty = true := by
  rcases h with hc | hc <;>
    simp [Packet.answers, hc, MemCmd.needsResponse, MemCmd.isWriteInvalidate, MemCmd.isWrite,
      MemCmd.isInvalidate, MemCmd.testCmdAttrib, MemCmd.attributes]

theorem quiet_of_clean {src : Option (Fin n)} (h : pkt.cmd = .readReq ∨ pkt.cmd = .writeReq)
    (hd : ¬ ∃ j, some j ≠ src ∧ (s.caches j (pkt.key p.blkSize)).isDirty = true) :
    ∀ j, some j ≠ src → pkt.answers (blkOf p s pkt j) = false :=
  fun j hj => Bool.eq_false_iff.mpr fun ha => hd ⟨j, hj, ((answers_iff_dirty h _).mp ha).2⟩

/-- **A read on the crossbar** returns the bytes its source is told. -/
theorem recvAtomic_read (h : Good p s) (hr : ReadRequest p s.mem rd) (src : Option (Fin n)) :
    ∃ s' q, recvAtomic p s rd src = some (s', q) ∧ ∀ o, o < rd.size →
      (byteLine s (rd.key p.blkSize) (rd.getOffset p.blkSize + o)).Supplied src (q.data o) := by
  have hsn : rd.Snoopable := by
    refine ⟨?_, ?_, ?_, fun _ => ?_⟩ <;> rw [hr.cmd] <;> decide
  by_cases hd : ∃ j, some j ≠ src ∧ (s.caches j (rd.key p.blkSize)).isDirty = true
  · -- the dirty copy answers
    obtain ⟨j, hj, hd⟩ := hd
    have ha : rd.answers (blkOf p s rd j) = true :=
      (answers_iff_dirty (Or.inl hr.cmd) _).mpr ⟨(h.lines _).valid_of_dirty j hd, hd⟩
    obtain ⟨f, hf, hrecv⟩ :=
      recvAtomic_answered hsn hr.fresh.2 (h.oneAnswer rd src) hr.range hj ha
    refine ⟨_, _, hrecv, fun o ho => ⟨fun l hl hdl => ?_, fun hclean => ?_⟩⟩
    · obtain rfl := (h.lines _).owner j l hd hdl
      show f.pkt.data o = _
      rw [(hf.answer l (mem_snoopPorts.mpr hj) ha).2.1]
      exact LineRequest.setData_eq rd _ _ ho
    · exact absurd (hd.symm.trans (hclean j hj)) (by decide)
  · -- the memory answers
    have hclean : ∀ j, some j ≠ src → (s.caches j (rd.key p.blkSize)).isDirty = false :=
      fun j hj => Bool.eq_false_iff.mpr fun hdj => hd ⟨j, hj, hdj⟩
    obtain ⟨f, hf, hinh, -, hrecv⟩ := recvAtomic_quiet hsn hr.fresh.2 (quiet_of_clean (Or.inl hr.cmd) hd)
    obtain ⟨hcmd, -, haddr, -, hsize⟩ := hf.same
    rw [hr.cmd] at hcmd
    have haccess : s.mem.access f.pkt = some (s.mem, (f.pkt.setData s.mem.bytes rd.addr).makeResponse) := by
      unfold AbstractMemory.access
      rw [if_pos (by rw [haddr, hsize]; exact hr.range), hinh, ← haddr]
      simp [AbstractMemory.perform, AbstractMemory.read, hcmd, h.real, MemCmd.isRead,
        MemCmd.isWrite, MemCmd.isLLSC, MemCmd.needsResponse, MemCmd.testCmdAttrib, MemCmd.attributes, Packet.setData]
    rw [haccess] at hrecv
    refine ⟨_, _, hrecv, fun o ho => ⟨fun l hl hdl => ?_, fun _ => ?_⟩⟩
    · exact absurd (hdl.symm.trans (hclean l hl)) (by decide)
    · show (f.pkt.setData s.mem.bytes rd.addr).data o = s.mem.bytes _
      rw [LineRequest.setData_eq _ _ _ (by rw [hsize]; exact ho), ← Nat.add_assoc, key_add_offset]

theorem snoopable_write (h : w.cmd = .writeReq ∨ w.cmd = .writeInvalidateReq) : w.Snoopable := by
  refine ⟨?_, ?_, ?_, fun hs => ?_⟩
  · rcases h with hc | hc <;> rw [hc] <;> rfl
  · rcases h with hc | hc <;> rw [hc] <;> decide
  · rcases h with hc | hc <;> rw [hc] <;> decide
  · rcases h with hc | hc <;>
      simp [Packet.shares, hc, MemCmd.isRead, MemCmd.testCmdAttrib, MemCmd.attributes] at hs

/-- **A plain write on the crossbar** changes no cache, and the memory unless a dirty copy
    answers. -/
theorem recvAtomic_plainWrite (h : Good p s) (hcmd : w.cmd = .writeReq)
    (hfetch : w.req.isInstFetch = false) (hinh : w.memInhibitAsserted = false)
    (hrange : s.mem.start ≤ w.addr ∧ w.addr + w.size - 1 ≤ s.mem.finish) (src : Option (Fin n)) :
    ∃ s' q, recvAtomic p s w src = some (s', q) ∧ q.cmd = .writeResp ∧ s'.caches = s.caches ∧
      SameConfig s.mem s'.mem ∧ ((∃ j, some j ≠ src ∧ (s.caches j (w.key p.blkSize)).isDirty = true) →
        s'.mem.bytes = s.mem.bytes) ∧ ((∀ j, some j ≠ src → (s.caches j (w.key p.blkSize)).isDirty = false) →
        s'.mem.bytes = memcpy s.mem.bytes w.addr w.data 0 w.size) := by
  have hsn := snoopable_write (Or.inl hcmd)
  -- a snoop for a plain write leaves every block as it is
  have hcaches : ∀ f, Snooped p s w (snoopPorts src) f → f.sys.caches = s.caches := by
    intro f hf
    funext j
    have hblk : w.snoopBlk (blkOf p s w j) = blkOf p s w j := by
      simp [Packet.snoopBlk, Packet.shares, hcmd, MemCmd.isRead, MemCmd.isInvalidate,
        MemCmd.testCmdAttrib, MemCmd.attributes]
    rw [hf.caches, snoopCache, hblk, blkOf, update_eq_self, ite_self]
  by_cases hd : ∃ j, some j ≠ src ∧ (s.caches j (w.key p.blkSize)).isDirty = true
  · obtain ⟨j, hj, hd⟩ := hd
    obtain ⟨f, hf, hrecv⟩ := recvAtomic_answered hsn hinh (h.oneAnswer w src) hrange hj
      ((answers_iff_dirty (Or.inr hcmd) _).mpr ⟨(h.lines _).valid_of_dirty j hd, hd⟩)
    refine ⟨_, _, hrecv, by rw [hcmd]; rfl, hcaches f hf, ?_, fun _ => ?_, fun hclean => ?_⟩
    · rw [hf.mem]; exact ⟨rfl, rfl, rfl⟩
    · rw [hf.mem]
    · exact absurd (hd.symm.trans (hclean j hj)) (by decide)
  · obtain ⟨f, hf, hinh', hdata, hrecv⟩ := recvAtomic_quiet hsn hinh (quiet_of_clean (Or.inr hcmd) hd)
    obtain ⟨hcmd', hreq, haddr, -, hsize⟩ := hf.same
    obtain ⟨m, haccess, hbytes, hcfg⟩ := AbstractMemory.access_store s.mem f.pkt
      (Or.inl (hcmd'.trans hcmd)) (by rw [haddr, hsize]; exact hrange) hinh' (by rw [hreq]; exact hfetch) h.real
    rw [haccess] at hrecv
    refine ⟨_, _, hrecv, ?_, hcaches f hf, hcfg, fun hdirty => absurd hdirty hd, fun _ => ?_⟩
    · rw [hcmd', hcmd]
      show f.pkt.cmd.responseCommand = _
      rw [hcmd', hcmd]
      rfl
    · rw [hbytes, haddr, hdata, hsize]

/-- **A write-invalidate on the crossbar** drops the other copies, and never reaches the memory. -/
theorem recvAtomic_writeInvalidate (h : Good p s) (hcmd : w.cmd = .writeInvalidateReq)
    (hinh : w.memInhibitAsserted = false)
    (hrange : s.mem.start ≤ w.addr ∧ w.addr + w.size - 1 ≤ s.mem.finish) (src : Option (Fin n)) :
    ∃ s' q, recvAtomic p s w src = some (s', q) ∧ q.cmd = .writeInvalidateResp ∧
      s'.mem = s.mem ∧ (∀ j, some j = src → s'.caches j = s.caches j) ∧
      (∀ j k, k ≠ w.key p.blkSize → s'.caches j k = s.caches j k) ∧ ∀ j, some j ≠ src →
        Gone (s.caches j (w.key p.blkSize)) (s'.caches j (w.key p.blkSize)) := by
  have hsn := snoopable_write (Or.inr hcmd)
  have hquiet : ∀ j, some j ≠ src → w.answers (blkOf p s w j) = false := by
    intro j _
    simp [Packet.answers, hcmd, MemCmd.isWriteInvalidate, MemCmd.isWrite, MemCmd.isInvalidate,
      MemCmd.testCmdAttrib, MemCmd.attributes]
  obtain ⟨f, hf, hinh', -, hrecv⟩ := recvAtomic_quiet hsn hinh hquiet
  obtain ⟨hcmd', -, haddr, -, hsize⟩ := hf.same
  rw [hcmd] at hcmd'
  have haccess : s.mem.access f.pkt = some (s.mem, f.pkt.makeResponse) := by
    unfold AbstractMemory.access
    rw [if_pos (by rw [haddr, hsize]; exact hrange), hinh']
    simp [AbstractMemory.perform, hcmd', MemCmd.isRead, MemCmd.isInvalidate,
      MemCmd.needsResponse, MemCmd.testCmdAttrib, MemCmd.attributes]
  rw [haccess] at hrecv
  refine ⟨_, _, hrecv, ?_, rfl, fun j hj => ?_, fun j k hk => ?_, fun j hj => ?_⟩
  · show f.pkt.cmd.responseCommand = _
    rw [hcmd']
    rfl
  · show f.sys.caches j = _
    rw [hf.caches, if_neg (by rw [mem_snoopPorts]; exact not_not.mpr hj)]
  · show f.sys.caches j k = _
    rw [hf.caches]
    split
    · exact update_of_ne hk _ _
    · rfl
  · show Gone _ (f.sys.caches j (w.key p.blkSize))
    rw [hf.caches, if_pos (mem_snoopPorts.mpr hj), snoopCache, update_self, blkOf]
    have hinv : w.cmd.isInvalidate = true := by rw [hcmd]; rfl
    have hshares : w.shares = false := by
      simp [Packet.shares, hcmd, MemCmd.isRead, MemCmd.testCmdAttrib, MemCmd.attributes]
    unfold Packet.snoopBlk
    rw [hinv, hshares]
    cases hv : (s.caches j (w.key p.blkSize)).isValid with
    | true => exact ⟨rfl, rfl, rfl⟩
    | false => exact ⟨hv, clean_of_invalid (h.lines _) hv, rfl⟩

/-! ## Uncacheable requests through a cache -/

/-- Cache `i` has flushed the block of key `k`. -/
structure Flushed (p : CacheParams) (s : System n) (i : Fin n) (k : Key) (s₀ : System n) :
    Prop where
  others : ∀ j, j ≠ i → s₀.caches j = s.caches j
  kept : ∀ k', k' ≠ k → Kept (s.caches i k') (s₀.caches i k')
  gone : Gone (s.caches i k) (s₀.caches i k)
  bytes : s₀.mem.bytes = evictedBytes p s.mem.bytes (s.caches i) (some k)
  config : SameConfig s.mem s₀.mem

theorem Flushed.good (hf : Flushed p s i k s₀) (h : Good p s) : Good p s₀ := by
  refine h.shrink hf.config fun j k' => ?_
  by_cases hj : j = i
  · subst hj
    by_cases hk : k' = k
    · subst hk
      exact Or.inr hf.gone
    · exact Or.inl (hf.kept k' hk)
  · rw [hf.others j hj]
    exact Or.inl Kept.rfl

theorem Flushed.byteLine_eq (hf : Flushed p s i k s₀) {o : Nat} (ho : o < p.blkSize) :
    byteLine s₀ k o = (byteLine s k o).evict i := by
  refine Line.ext (funext fun j => ?_) ?_
  · by_cases hj : j = i
    · subst hj
      simp only [byteLine, Line.evict, update_self, hf.gone.valid, hf.gone.writable,
        hf.gone.dirty, hf.gone.data, Replica.dropped]
    · simp only [byteLine, Line.evict, update_of_ne hj, hf.others j hj]
  · show s₀.mem.bytes (k.1 + o) = if (s.caches i k).isDirty then (s.caches i k).data o
      else s.mem.bytes (k.1 + o)
    rw [hf.bytes, evictedBytes]
    split
    · rw [memcpy_of_mem (Nat.le_add_right _ _) (Nat.add_lt_add_left ho _), Nat.add_sub_cancel_left, Nat.zero_add]
    · rfl

theorem flushed_of_update {c' : Cache} (hkept : ∀ k, Kept (s.caches i k) (c' k))
    (hbytes : m.bytes = evictedBytes p s.mem.bytes (s.caches i) (some k)) (hcfg : SameConfig s.mem m) :
    Flushed p s i k { s.setCache i (update c' k (c' k).invalidate) with mem := m } where
  others := fun j hj => update_of_ne hj _ _
  kept := by
    intro k' hk'
    show Kept _ (update s.caches i _ i k')
    rw [update_self, update_of_ne hk']
    exact hkept k'
  gone := by
    show Gone _ (update s.caches i _ i k)
    rw [update_self, update_self]
    exact ⟨rfl, rfl, (hkept k).data⟩
  bytes := hbytes
  config := hcfg

/-- **The flush of an uncacheable request goes through.** -/
theorem accessUncacheable_spec (h : Good p s) (i : Fin n) (pkt : Packet) :
    ∃ s₀, Flushed p s i (pkt.key p.blkSize) s₀ ∧
      sendWritebacks p (s.setCache i (accessUncacheable p (s.caches i) pkt).cache) i
        (accessUncacheable p (s.caches i) pkt).writebacks = some s₀ := by
  -- clearing the load-linked locks keeps every block
  obtain ⟨c', hc', hkept⟩ : ∃ c' : Cache, (if pkt.req.isClearLL then
      (fun k => { s.caches i k with lockList := [] } : Cache) else s.caches i) = c' ∧
      ∀ k, Kept (s.caches i k) (c' k) := by
    cases pkt.req.isClearLL
    · exact ⟨s.caches i, rfl, fun _ => Kept.rfl⟩
    · exact ⟨_, rfl, fun _ => ⟨rfl, rfl, rfl, rfl, rfl⟩⟩
  have hk := hkept (pkt.key p.blkSize)
  unfold accessUncacheable
  simp only [hc', hk.valid, hk.dirty]
  cases hv : (s.caches i (pkt.key p.blkSize)).isValid with
  | false =>
    have hclean := clean_of_invalid (h.lines _) hv
    refine ⟨s.setCache i c', ⟨fun j hj => update_of_ne hj _ _, fun k' _ => ?_, ?_, ?_, rfl, rfl, rfl⟩, rfl⟩
    · show Kept _ (update s.caches i c' i k')
      rw [update_self]
      exact hkept k'
    · show Gone _ (update s.caches i c' i _)
      rw [update_self]
      exact ⟨hk.valid.trans hv, hk.dirty.trans hclean, hk.data⟩
    · rw [evictedBytes, hclean]
      rfl
  | true =>
    cases hd : (s.caches i (pkt.key p.blkSize)).isDirty with
    | false =>
      refine ⟨_, flushed_of_update hkept ?_ ⟨rfl, rfl, rfl⟩, rfl⟩
      rw [evictedBytes, hd]
      rfl
    | true =>
      have hwb : IsWriteback p (writebackBlk p (pkt.key p.blkSize) (c' (pkt.key p.blkSize))) :=
        ⟨rfl, rfl, rfl, rfl⟩
      obtain ⟨m, hsend, hbytes, hcfg⟩ := recvAtomic_writeback (s := s.setCache i (update c' (pkt.key p.blkSize)
          (c' (pkt.key p.blkSize)).invalidate)) hwb (h.placed i _ hv).2 h.real (some i)
      refine ⟨_, flushed_of_update hkept (m := m) ?_ hcfg, ?_⟩
      · rw [hbytes, evictedBytes, hd, ← hk.data]
        exact memcpy_memcpy
      · simp [sendWritebacks, exec, hsend]

/-- **An uncacheable request through a cache**: flush the block, and pass the request on. -/
theorem cacheRecvAtomic_uncached (h : Good p s) (htop : p.isTopLevel = true) (i : Fin n)
    (hu : pkt.req.isUncacheable = true) (hinh : pkt.memInhibitAsserted = false)
    (hreq : (promoted p pkt).cmd.isRequest = true) : ∃ s₀, Flushed p s i (pkt.key p.blkSize) s₀ ∧ ∀ victim,
      cacheRecvAtomic p s i pkt victim = (recvAtomic p s₀ (promoted p pkt) (some i)).map fun r =>
          (r.1, if r.2.cmd.needsResponse then r.2.makeResponse else r.2) := by
  obtain ⟨hkey, hreq', hinh'⟩ : (promoted p pkt).key p.blkSize = pkt.key p.blkSize ∧
      (promoted p pkt).req = pkt.req ∧ (promoted p pkt).memInhibitAsserted = false := by
    rcases promoted_cases p pkt with heq | ⟨heq, -⟩ <;> rw [heq] <;> exact ⟨rfl, rfl, hinh⟩
  obtain ⟨s₀, hf, hsend⟩ := accessUncacheable_spec h i (promoted p pkt)
  rw [hkey] at hf
  refine ⟨s₀, hf, fun victim => ?_⟩
  have hu' : (promoted p pkt).req.isUncacheable = true := by rw [hreq']; exact hu
  have haccess : access p (s.caches i) (promoted p pkt) victim =
      some (accessUncacheable p (s.caches i) (promoted p pkt)) := by
    unfold access
    rw [hreq, if_pos rfl, hu', if_pos rfl]
  have hpkt : (accessUncacheable p (s.caches i) (promoted p pkt)).satisfied = false ∧
      (accessUncacheable p (s.caches i) (promoted p pkt)).pkt = promoted p pkt := by
    constructor <;>
    · dsimp only [accessUncacheable]
      split <;> split <;> rfl
  have hmiss : handleMiss p s₀ i (promoted p pkt) victim = recvAtomic p s₀ (promoted p pkt) (some i) := by
    unfold handleMiss getBusPacket
    rw [hu']
    rfl
  unfold cacheRecvAtomic
  rw [promoteWholeLineWrites_eq htop, bind_some, hinh', if_neg (by simp), haccess,
    bind_some, hsend, bind_some, hpkt.1, hpkt.2, if_neg (by simp), hmiss]

/-! ## The state after an uncacheable write -/

/-- A request of a master: of the CPU behind cache `i`, or of a master without a cache. -/
def issue (p : CacheParams) (s : System n) (master : Option (Fin n)) (pkt : Packet)
    (victim : Option Key) : Option (System n × Packet) :=
  match master with
  | none => recvAtomic p s pkt none
  | some i => cacheRecvAtomic p s i pkt victim

/-- An uncacheable write of any size to lines of the memory. -/
structure UncachedWrite (p : CacheParams) (m : AbstractMemory) (w : Packet) : Prop where
  cmd : w.cmd = .writeReq
  uncacheable : w.req.isUncacheable = true
  notFetch : w.req.isInstFetch = false
  fresh : w.memInhibitAsserted = false
  range : m.start ≤ w.addr ∧ w.addr + w.size - 1 ≤ m.finish
  lines : ∀ o, o < w.size → InMem p m (blockAlign p.blkSize (w.addr + o))

/-- The write passes a cache, which makes a write-invalidate of it. -/
def Promotes (p : CacheParams) (master : Option (Fin n)) (w : Packet) : Prop :=
  master ≠ none ∧ w.size = p.blkSize ∧ w.getOffset p.blkSize = 0

/-- Another cache holds the first line of the write dirty. -/
def Inhibited (p : CacheParams) (s : System n) (master : Option (Fin n)) (w : Packet) : Prop :=
  ∃ j, some j ≠ master ∧ (s.caches j (w.key p.blkSize)).isDirty = true

/-- The block of cache `j` is still there after the write: only the first line is ever dropped, by
    its issuer and, if promoted, by everybody. -/
def Survives (p : CacheParams) (master : Option (Fin n)) (w : Packet) (j : Fin n) (k : Key) : Prop :=
  k = w.key p.blkSize → some j ≠ master ∧ ¬ Promotes p master w

/-- The memory after the issuer has flushed the first line. -/
def flushedBytes (p : CacheParams) (s : System n) (master : Option (Fin n)) (w : Packet) : Buffer Byte :=
  match master with
  | none => s.mem.bytes
  | some i => evictedBytes p s.mem.bytes (s.caches i) (some (w.key p.blkSize))

/-- The state after an uncacheable write. -/
structure Written (p : CacheParams) (s : System n) (master : Option (Fin n)) (w : Packet)
    (s₁ : System n) : Prop where
  kept : ∀ j k, Survives p master w j k → Kept (s.caches j k) (s₁.caches j k)
  gone : ∀ j k, ¬ Survives p master w j k → Gone (s.caches j k) (s₁.caches j k)
  stopped : Promotes p master w ∨ Inhibited p s master w → s₁.mem.bytes = flushedBytes p s master w
  stored : ¬ (Promotes p master w ∨ Inhibited p s master w) →
    s₁.mem.bytes = memcpy (flushedBytes p s master w) w.addr w.data 0 w.size
  config : SameConfig s.mem s₁.mem

theorem written_direct (h : Good p s) (hw : UncachedWrite p s.mem w) :
    ∃ s₁ q, recvAtomic p s w none = some (s₁, q) ∧ q.cmd.isResponse = true ∧ Written p s none w s₁ := by
  obtain ⟨s₁, q, hrecv, hq, hcaches, hcfg, hstopped, hstored⟩ :=
    recvAtomic_plainWrite h hw.cmd hw.notFetch hw.fresh hw.range none
  have hprom : ¬ Promotes p (none : Option (Fin n)) w := fun hp => hp.1 rfl
  refine ⟨s₁, q, hrecv, by rw [hq]; rfl, ⟨fun j k _ => ?_, fun j k hs => ?_, fun hst => ?_, fun hst => ?_, hcfg⟩⟩
  · rw [hcaches]; exact Kept.rfl
  · exact absurd (fun _ => ⟨nofun, hprom⟩) hs
  · exact hstopped (hst.resolve_left hprom)
  · refine hstored fun j hj => ?_
    by_contra hd
    exact hst (Or.inr ⟨j, hj, Bool.of_not_eq_false hd⟩)

theorem Flushed.inhibited_iff (hf : Flushed p s i (w.key p.blkSize) s₀) :
    (∃ j, some j ≠ some i ∧ (s₀.caches j (w.key p.blkSize)).isDirty = true) ↔ Inhibited p s (some i) w := by
  constructor
  · rintro ⟨j, hj, hd⟩
    rw [hf.others j (fun heq => hj (congrArg some heq))] at hd
    exact ⟨j, hj, hd⟩
  · rintro ⟨j, hj, hd⟩
    refine ⟨j, hj, ?_⟩
    rw [hf.others j (fun heq => hj (congrArg some heq))]
    exact hd

section

variable (h : Good p s) (hw : UncachedWrite p s.mem w) (hf : Flushed p s i (w.key p.blkSize) s₀)

include h hw hf

theorem written_plain (hprom : ¬ Promotes p (some i) w) :
    ∃ s₁ q, recvAtomic p s₀ w (some i) = some (s₁, q) ∧ q.cmd = .writeResp ∧ Written p s (some i) w s₁ := by
  obtain ⟨s₁, q, hrecv, hq, hcaches, hcfg, hstopped, hstored⟩ :=
    recvAtomic_plainWrite (hf.good h) hw.cmd hw.notFetch hw.fresh
      (by rw [hf.config.1, hf.config.2.1]; exact hw.range) (some i)
  have hbytes : s₀.mem.bytes = flushedBytes p s (some i) w := hf.bytes
  refine ⟨s₁, q, hrecv, hq, ⟨fun j k hs => ?_, fun j k hs => ?_, fun hst => ?_, fun hst => ?_, ?_⟩⟩
  · rw [hcaches]
    by_cases hj : j = i
    · subst hj
      exact hf.kept k fun hk => (hs hk).1 rfl
    · rw [hf.others j hj]
      exact Kept.rfl
  · rw [hcaches]
    obtain ⟨rfl, hj⟩ : k = w.key p.blkSize ∧ j = i := by
      by_contra hne
      exact hs fun hk => ⟨fun hj => hne ⟨hk, some.inj hj⟩, hprom⟩
    rw [hj]
    exact hf.gone
  · rw [hstopped (hf.inhibited_iff.mpr (hst.resolve_left hprom)), hbytes]
  · rw [hstored, hbytes]
    intro j hj
    by_contra hd
    exact hst (Or.inr (hf.inhibited_iff.mp ⟨j, hj, Bool.of_not_eq_false hd⟩))
  · exact ⟨hcfg.1.trans hf.config.1, hcfg.2.1.trans hf.config.2.1, hcfg.2.2.trans hf.config.2.2⟩

theorem written_promoted {w' : Packet} (hprom : Promotes p (some i) w)
    (hw' : w' = { w with cmd := .writeInvalidateReq }) :
    ∃ s₁ q, recvAtomic p s₀ w' (some i) = some (s₁, q) ∧ q.cmd = .writeInvalidateResp ∧
      Written p s (some i) w s₁ := by
  subst hw'
  obtain ⟨s₁, q, hrecv, hq, hmem, hself, hrest, hgone⟩ :=
    recvAtomic_writeInvalidate (w := { w with cmd := .writeInvalidateReq }) (hf.good h) rfl hw.fresh
      (by rw [hf.config.1, hf.config.2.1]; exact hw.range) (some i)
  refine ⟨s₁, q, hrecv, hq, ⟨fun j k hs => ?_, fun j k hs => ?_, fun _ => ?_, fun hst => ?_, ?_⟩⟩
  · have hk : k ≠ w.key p.blkSize := fun hk => (hs hk).2 hprom
    rw [hrest j k hk]
    by_cases hj : j = i
    · subst hj
      exact hf.kept k hk
    · rw [hf.others j hj]
      exact Kept.rfl
  · obtain rfl : k = w.key p.blkSize := by
      by_contra hk
      exact hs fun heq => absurd heq hk
    by_cases hj : j = i
    · subst hj
      rw [hself j rfl]
      exact hf.gone
    · have hg := hgone j (fun heq => hj (some.inj heq))
      rw [hf.others j hj] at hg
      exact hg
  · rw [hmem]
    exact hf.bytes
  · exact absurd (Or.inl hprom) hst
  · rw [hmem]
    exact hf.config

end

/-- **An uncacheable write completes**, whoever issues it. -/
theorem issue_write (h : Good p s) (htop : p.isTopLevel = true) (hw : UncachedWrite p s.mem w)
    (master : Option (Fin n)) :
    ∃ s₁ q, (∀ victim, issue p s master w victim = some (s₁, q)) ∧ q.cmd.isResponse = true ∧
      Written p s master w s₁ := by
  cases master with
  | none =>
    obtain ⟨s₁, q, hrecv, hq, hwritten⟩ := written_direct h hw
    exact ⟨s₁, q, fun _ => hrecv, hq, hwritten⟩
  | some i =>
    have hreq : (promoted p w).cmd.isRequest = true := by
      rcases promoted_cases p w with heq | ⟨heq, -⟩
      · rw [heq, hw.cmd]; rfl
      · rw [heq]; rfl
    obtain ⟨s₀, hf, hrecv⟩ := cacheRecvAtomic_uncached h htop i hw.uncacheable hw.fresh hreq
    by_cases hprom : Promotes p (some i) w
    · have hpw : promoted p w = { w with cmd := .writeInvalidateReq } :=
        if_pos ⟨hw.cmd, hprom.2⟩
      obtain ⟨s₁, q, hrecv', hq, hwritten⟩ := written_promoted h hw hf hprom hpw
      refine ⟨s₁, q, fun victim => ?_, by rw [hq]; rfl, hwritten⟩
      show cacheRecvAtomic p s i w victim = _
      rw [hrecv, hrecv', map_some, hq, if_neg (by decide)]
    · obtain ⟨s₁, q, hrecv', hq, hwritten⟩ := written_plain h hw hf hprom
      have hsame : promoted p w = w := if_neg fun hp => hprom ⟨nofun, hp.2⟩
      refine ⟨s₁, q, fun victim => ?_, by rw [hq]; rfl, hwritten⟩
      show cacheRecvAtomic p s i w victim = _
      rw [hrecv, hsame, hrecv', map_some, hq, if_neg (by decide)]

theorem Written.good (hw : Written p s master w s₁) (h : Good p s) : Good p s₁ := by
  refine h.shrink hw.config fun j k => ?_
  by_cases hs : Survives p master w j k
  · exact Or.inl (hw.kept j k hs)
  · exact Or.inr (hw.gone j k hs)

/-! ## What the masters read -/

section

variable (h : Good p s) (htop : p.isTopLevel = true) (hr : ReadRequest p s.mem rd)

include h htop hr

theorem issue_cachedRead
    (hc : rd.req.isUncacheable = false) {victim : Option Key}
    (hvictim : ∀ v ∈ victim, (s.caches i v).isValid = true) :
    ∃ s' q, issue p s (some i) rd victim = some (s', q) ∧ ∀ o, o < rd.size →
      ReadAs s i (rd.key p.blkSize) (rd.getOffset p.blkSize + o) (q.data o) := by
  have hlegal : Legal p s ⟨i, rd, victim⟩ := by
    refine ⟨⟨by rw [hr.cmd]; decide, hc, hr.req, hr.fits, fun hs => ?_, hr.fresh⟩, hr.inMem, hvictim⟩
    rw [hr.cmd] at hs
    cases hs
  obtain ⟨s', q, L, used, -, hrecv, -, ht⟩ := h.request htop hlegal
  exact ⟨s', q, hrecv, ht.read (by show rd.cmd.isRead = true; rw [hr.cmd]; rfl)⟩

/-- **Every master reads the value of the line**, where it has one. -/
theorem issue_read
    (master : Option (Fin n)) {victim : Option Key}
    (hvictim : ∀ i, master = some i → ∀ v ∈ victim, (s.caches i v).isValid = true) :
    ∃ s' q, issue p s master rd victim = some (s', q) ∧ ∀ o, o < rd.size → ∀ v,
      (byteLine s (rd.key p.blkSize) (rd.getOffset p.blkSize + o)).Holds v → q.data o = v := by
  have hx := h.lines (rd.key p.blkSize)
  cases master with
  | none =>
    obtain ⟨s', q, hrecv, htold⟩ := recvAtomic_read h hr none
    exact ⟨s', q, hrecv, fun o ho v hv =>
      hv.supplied (exclusive_byteLine hx _) (by intro j hj; cases hj) (htold o ho)⟩
  | some i =>
    cases hc : rd.req.isUncacheable with
    | false =>
      obtain ⟨s', q, hrecv, hread⟩ := issue_cachedRead h htop hr hc (hvictim i rfl)
      exact ⟨s', q, hrecv, fun o ho v hv => (hread o ho).eq hx hv⟩
    | true =>
      -- the own copy is flushed first, so the own bytes come from the memory
      have hprom : promoted p rd = rd := by
        refine if_neg fun hp => ?_
        rw [hr.cmd] at hp
        cases hp.1
      obtain ⟨s₀, hf, hrecv⟩ := cacheRecvAtomic_uncached h htop i hc hr.fresh.2 (by rw [hprom, hr.cmd]; rfl)
      have hr₀ : ReadRequest p s₀.mem rd :=
        ⟨hr.cmd, hr.req, hr.fits, hr.fresh, hf.config.inMem hr.inMem⟩
      obtain ⟨s', q, hrecv₀, htold⟩ := recvAtomic_read (hf.good h) hr₀ (some i)
      have hfits := hr.fits
      refine ⟨s', if q.cmd.needsResponse then q.makeResponse else q, ?_, fun o ho v hv => ?_⟩
      · show cacheRecvAtomic p s i rd victim = _
        rw [hrecv, hprom, hrecv₀, map_some]
      · have hq : (if q.cmd.needsResponse then q.makeResponse else q).data o = q.data o := by
          split <;> rfl
        rw [hq]
        have hv₀ := hv.evict (exclusive_byteLine hx _) i
        rw [← hf.byteLine_eq (by omega)] at hv₀
        refine hv₀.supplied (exclusive_byteLine ((hf.good h).lines _) _) (fun j hj => ?_) (htold o ho)
        obtain rfl := some.inj hj
        exact hf.gone.dirty

end

/-- After the write, every master reads the written bytes, with any read that covers some of them. -/
def ReadBack (p : CacheParams) (s₁ : System n) (w : Packet) : Prop :=
  ∀ (reader : Option (Fin n)) (rd : Packet) (victim : Option Key), ReadRequest p s₁.mem rd →
    rd.isSecure = w.isSecure → (∀ i, reader = some i → ∀ v ∈ victim, (s₁.caches i v).isValid = true) →
    ∃ s₂ q, issue p s₁ reader rd victim = some (s₂, q) ∧
      ∀ o o', o < rd.size → o' < w.size → rd.addr + o = w.addr + o' → q.data o = w.data o'

/-- The line of byte `o` of a write. -/
def lineKey (p : CacheParams) (w : Packet) (o : Nat) : Key :=
  (blockAlign p.blkSize (w.addr + o), w.isSecure)

/-- Nothing hides the written bytes: every copy that survives the write has them already, and where
    the write is stopped and no dirty copy of the line survives, the memory has them. -/
def Unhidden (p : CacheParams) (s : System n) (master : Option (Fin n)) (w : Packet) : Prop :=
  ∀ o, o < w.size → (∀ j, Survives p master w j (lineKey p w o) → (s.caches j (lineKey p w o)).isValid = true →
      (s.caches j (lineKey p w o)).data ((w.addr + o) % p.blkSize) = w.data o) ∧
    (Promotes p master w ∨ Inhibited p s master w → (∀ j, Survives p master w j (lineKey p w o) →
        (s.caches j (lineKey p w o)).isDirty = false) → flushedBytes p s master w (w.addr + o) = w.data o)

theorem blockAlign_add {blkSize a o : Nat} (h : a % blkSize + o < blkSize) :
    blockAlign blkSize (a + o) = blockAlign blkSize a ∧ (a + o) % blkSize = a % blkSize + o := by
  have hmod : (a + o) % blkSize = a % blkSize + o := by
    rw [Nat.add_mod, Nat.mod_eq_of_lt (show o < blkSize by omega), Nat.mod_eq_of_lt h]
  refine ⟨?_, hmod⟩
  unfold blockAlign
  rw [hmod, Nat.add_sub_add_right]

/-- A one-byte read. -/
def byteRead (secure : Bool) (a : Addr) : Packet :=
  Packet.ofRequest ⟨a, 1, 0, 0, false, false, false, secure, false⟩ .readReq (fun _ => 0)

theorem byteRead_request {secure : Bool} {a : Addr} (hblk : 0 < p.blkSize)
    (hm : InMem p m (blockAlign p.blkSize a)) : ReadRequest p m (byteRead secure a) :=
  ⟨rfl, ⟨rfl, rfl⟩, Nat.mod_lt a hblk, ⟨rfl, rfl⟩, hm⟩

/-- **Reading back is a property of the lines**: every master reads the written bytes exactly if
    they are the values of their lines. -/
theorem readBack_iff (h : Good p s₁) (htop : p.isTopLevel = true) (hblk : 0 < p.blkSize)
    (hmem : ∀ o, o < w.size → InMem p s₁.mem (blockAlign p.blkSize (w.addr + o))) :
    ReadBack p s₁ w ↔ ∀ o, o < w.size →
      (byteLine s₁ (lineKey p w o) ((w.addr + o) % p.blkSize)).Holds (w.data o) := by
  constructor
  · intro hread o ho
    have hr : ReadRequest p s₁.mem (byteRead w.isSecure (w.addr + o)) :=
      byteRead_request hblk (hmem o ho)
    refine ⟨fun j hv => ?_, fun hclean => ?_⟩
    · -- the cache that has a copy reads it
      have hnone : ∀ v ∈ (none : Option Key), (s₁.caches j v).isValid = true := by
        intro v hv
        cases hv
      obtain ⟨s₂, q, hissue, hq⟩ := hread (some j) _ none hr rfl (by intro _ _ v hv; cases hv)
      obtain ⟨s₂', q', hissue', hown⟩ := issue_cachedRead h htop hr rfl hnone
      rw [hissue] at hissue'
      obtain rfl : q = q' := congrArg Prod.snd (some.inj hissue')
      rw [← hq 0 o Nat.zero_lt_one ho rfl]
      exact ((hown 0 Nat.zero_lt_one).own hv).symm
    · -- a master without a cache reads the memory
      obtain ⟨s₂, q, hissue, hq⟩ := hread none _ none hr rfl (by intro _ hi; cases hi)
      obtain ⟨s₂', q', hissue', htold⟩ := recvAtomic_read h hr none
      rw [show recvAtomic p s₁ _ none = some (s₂, q) from hissue] at hissue'
      obtain rfl : q = q' := congrArg Prod.snd (some.inj hissue')
      rw [← hq 0 o Nat.zero_lt_one ho rfl]
      exact ((htold 0 Nat.zero_lt_one).backing fun j _ => hclean j).symm
  · intro hholds reader rd victim hr hsec hvictim
    obtain ⟨s₂, q, hissue, hq⟩ := issue_read h htop hr reader hvictim
    refine ⟨s₂, q, hissue, fun o o' ho ho' heq => hq o ho _ ?_⟩
    have hfits := hr.fits
    have hlt : rd.addr % p.blkSize + o < p.blkSize := Nat.lt_of_lt_of_le (Nat.add_lt_add_left ho _) hfits
    obtain ⟨halign, hmod⟩ := blockAlign_add hlt
    have hkey : rd.key p.blkSize = lineKey p w o' := by
      rw [lineKey, ← heq, halign, ← hsec]
      rfl
    rw [hkey, Packet.getOffset, ← hmod, heq]
    exact hholds o' ho'

theorem Written.holds_iff (h : Written p s master w s₁) : (∀ o, o < w.size →
      (byteLine s₁ (lineKey p w o) ((w.addr + o) % p.blkSize)).Holds (w.data o)) ↔ Unhidden p s master w := by
  refine forall₂_congr fun o ho => ?_
  have haddr : (lineKey p w o).1 + (w.addr + o) % p.blkSize = w.addr + o :=
    Nat.sub_add_cancel (Nat.mod_le _ _)
  -- a dirty copy after the write is one that survived it
  have hclean : (∀ j, (s₁.caches j (lineKey p w o)).isDirty = false) ↔ ∀ j, Survives p master w j (lineKey p w o) →
        (s.caches j (lineKey p w o)).isDirty = false := by
    constructor
    · intro hall j hs
      rw [← (h.kept j _ hs).dirty]
      exact hall j
    · intro hall j
      by_cases hs : Survives p master w j (lineKey p w o)
      · rw [(h.kept j _ hs).dirty]
        exact hall j hs
      · exact (h.gone j _ hs).dirty
  constructor
  · intro hholds
    refine ⟨fun j hs hv => ?_, fun hst hall => ?_⟩
    · have hk := h.kept j _ hs
      rw [← hk.data]
      exact hholds.copies j (hk.valid.trans hv)
    · rw [← h.stopped hst, ← hholds.backing (hclean.mpr hall)]
      show _ = s₁.mem.bytes _
      rw [haddr]
  · rintro ⟨hcopies, hmemory⟩
    refine ⟨fun j hv => ?_, fun hall => ?_⟩
    · have hs : Survives p master w j (lineKey p w o) := by
        by_contra hs
        exact absurd ((h.gone j _ hs).valid.symm.trans hv) (by decide)
      have hk := h.kept j _ hs
      show (s₁.caches j _).data _ = _
      rw [hk.data]
      exact hcopies j hs (hk.valid.symm.trans hv)
    · show s₁.mem.bytes _ = _
      rw [haddr]
      by_cases hst : Promotes p master w ∨ Inhibited p s master w
      · rw [h.stopped hst]
        exact hmemory hst (hclean.mp hall)
      · rw [h.stored hst, memcpy_of_mem (Nat.le_add_right _ _) (Nat.add_lt_add_left ho _),
          Nat.add_sub_cancel_left, Nat.zero_add]

/-- An uncacheable write of the number 9 to the first bytes of the memory. -/
def demoWrite (size : Nat) : Packet :=
  Packet.ofRequest ⟨0, size, 0, 0, true, false, false, false, false⟩ .writeReq (bytesOf 9)

end System

end NvpSim.Mem
