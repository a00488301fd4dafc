/-
  Cacheable requests from the CPU side, in closed form.

  A request is answered from the block of its line, which is there with enough rights or is fetched
  first.  What it does to the bytes is compared with `specStep`, the same request on ONE flat memory:
  a write and an overwriting swap store their bytes, everything else leaves them alone.
-/
import NvpSim.Mem.Snooping

namespace NvpSim.Mem

open NvpSim.Lib Cache Option Function

/-! ## The request on a flat memory -/

/-- What a request does to a flat memory. -/
def specStep (flat : Buffer Byte) (pkt : Packet) : Buffer Byte :=
  if pkt.cmd = .swapReq then
    if pkt.swapOverwrites flat pkt.addr = some true then memcpy flat pkt.addr pkt.data 0 pkt.size
    else flat
  else if pkt.cmd.isWrite then memcpy flat pkt.addr pkt.data 0 pkt.size
  else flat

/-- The bytes of a block are those of a flat memory at line `a`. -/
def AgreesAt (p : CacheParams) (flat : Buffer Byte) (a : Addr) (b : CacheBlk) : Prop :=
  ∀ o, o < p.blkSize → b.data o = flat (a + o)

/-- A cacheable read, write or swap within one line, as the CPU or the promotion to a whole-line
    write makes it. -/
structure LineRequest (p : CacheParams) (pkt : Packet) : Prop where
  cmd : pkt.cmd ∈ [MemCmd.readReq, .writeReq, .swapReq, .writeInvalidateReq]
  cacheable : pkt.req.isUncacheable = false
  req : pkt.req.paddr = pkt.addr ∧ pkt.req.isSecure = pkt.isSecure
  fits : pkt.getOffset p.blkSize + pkt.size ≤ p.blkSize
  swapSize : pkt.cmd = .swapReq → pkt.size ≤ 8 ∧ (pkt.req.isCondSwap = true → pkt.size = 8 ∨ pkt.size = 4)
  whole : pkt.cmd = .writeInvalidateReq → pkt.getOffset p.blkSize = 0 ∧ pkt.size = p.blkSize
  fresh : pkt.sharedAsserted = false ∧ pkt.memInhibitAsserted = false

theorem key_add_offset (pkt : Packet) (blkSize : Nat) : (pkt.key blkSize).1 + pkt.getOffset blkSize = pkt.addr :=
  Nat.sub_add_cancel (Nat.mod_le _ _)

namespace LineRequest

variable {p : CacheParams} {pkt : Packet} {b : CacheBlk} {flat : Buffer Byte}

theorem cases (h : LineRequest p pkt) : pkt.cmd = .readReq ∨ pkt.cmd = .swapReq ∨
      (pkt.cmd = .writeReq ∨ pkt.cmd = .writeInvalidateReq) := by
  have := h.cmd
  simp only [List.mem_cons, List.not_mem_nil, or_false] at this
  tauto

theorem attributes (h : LineRequest p pkt) :
    pkt.cmd.isRequest = true ∧ pkt.cmd.needsResponse = true ∧ pkt.cmd ≠ .writeback ∧
      pkt.cmd.isUpgrade = false ∧ pkt.cmd.isLLSC = false := by
  rcases h.cases with hc | hc | hc | hc <;> rw [hc] <;> decide

theorem swapOverwrites_eq (h : LineRequest p pkt) (hb : AgreesAt p flat (pkt.key p.blkSize).1 b) :
    pkt.swapOverwrites b.data (pkt.getOffset p.blkSize) = pkt.swapOverwrites flat pkt.addr := by
  have hfits := h.fits
  have hbyte : ∀ k, k < pkt.size → b.data (pkt.getOffset p.blkSize + k) = flat (pkt.addr + k) := by
    intro k hk
    rw [hb _ (by omega), ← Nat.add_assoc, key_add_offset]
  unfold Packet.swapOverwrites Packet.condSwapMatches
  split
  · split
    · rw [memEq_congr fun k hk => hbyte k (by omega)]
    · split
      · rw [memEq_congr fun k hk => hbyte k (by omega)]
      · rfl
  · rfl

theorem agreesAt_store (hb : AgreesAt p flat (pkt.key p.blkSize).1 b) :
    AgreesAt p (memcpy flat pkt.addr pkt.data 0 pkt.size) (pkt.key p.blkSize).1
      (b.writeData (pkt.getOffset p.blkSize) pkt) := by
  intro o ho
  show memcpy b.data _ pkt.data 0 pkt.size o = _
  rw [memcpy_window (hb o ho), key_add_offset]

theorem setData_eq (pkt : Packet) (src : Buffer Byte) (d : Nat) {o : Nat} (ho : o < pkt.size) :
    (pkt.setData src d).data o = src (d + o) := by
  show memcpy pkt.data 0 src d pkt.size o = _
  rw [memcpy_of_mem (Nat.zero_le _) (by omega), Nat.sub_zero]

end LineRequest

/-! ## Answering from a block -/

/-- The block `b'` and the packet `q` after a request was satisfied from block `b`. -/
structure Satisfied (p : CacheParams) (pkt : Packet) (b b' : CacheBlk) (q : Packet) : Prop where
  marks : b'.valid = true ∧ b'.writable = b.writable ∧ b'.readable = b.readable
  header : q.cmd = pkt.cmd ∧ q.addr = pkt.addr ∧ q.isSecure = pkt.isSecure
  read : pkt.cmd = .readReq → b' = b
  dirty : b.dirty = true → b'.dirty = true
  bytes : ∀ flat, AgreesAt p flat (pkt.key p.blkSize).1 b → AgreesAt p (specStep flat pkt) (pkt.key p.blkSize).1 b' ∧
      (b'.dirty = false → specStep flat pkt = flat)
  whole : pkt.cmd = .writeInvalidateReq → b'.dirty = true ∧
    ∀ flat, AgreesAt p (specStep flat pkt) (pkt.key p.blkSize).1 b'
  result : pkt.cmd.isRead = true → ∀ o, o < pkt.size → q.data o = b.data (pkt.getOffset p.blkSize + o)

namespace LineRequest

variable {p : CacheParams} {pkt : Packet} {b : CacheBlk} {flat : Buffer Byte}

section

variable (h : LineRequest p pkt)

include h

theorem satisfy_read (hcmd : pkt.cmd = .readReq) (htop : p.isTopLevel = true) (hv : b.isValid = true) :
    ∃ q, satisfyCpuSideRequest p pkt b false false = some (b, q) ∧ Satisfied p pkt b b q := by
  have hkeep : ∀ q : Packet, q.cmd = pkt.cmd → q.addr = pkt.addr → q.isSecure = pkt.isSecure →
      q.data = (pkt.setData b.data (pkt.getOffset p.blkSize)).data → Satisfied p pkt b b q := by
    intro q hq haddr hsec hdata
    have hspec : ∀ flat, specStep flat pkt = flat := by
      intro flat
      simp [specStep, hcmd, MemCmd.isWrite, MemCmd.testCmdAttrib, MemCmd.attributes]
    refine ⟨⟨hv, rfl, rfl⟩, ⟨hq, haddr, hsec⟩, fun _ => rfl, id, fun flat hb => ?_, ?_, ?_⟩
    · rw [hspec]; exact ⟨hb, fun _ => rfl⟩
    · intro hwi; rw [hcmd] at hwi; cases hwi
    · intro _ o ho
      rw [hdata]
      exact setData_eq _ _ _ ho
  have hreq : pkt.cmd.isRequest = true ∧ b.isValid = true ∧
      pkt.getOffset p.blkSize + pkt.size ≤ p.blkSize := ⟨by rw [hcmd]; rfl, hv, h.fits⟩
  let q := pkt.setData b.data (pkt.getOffset p.blkSize)
  have hsat : satisfyCpuSideRequest p pkt b false false =
      if q.size = p.blkSize then satisfyBlockRead p q b false false else some (b, q) := by
    unfold satisfyCpuSideRequest
    rw [if_pos hreq]
    simp [hcmd, MemCmd.isWrite, MemCmd.isRead, MemCmd.isLLSC, MemCmd.testCmdAttrib, MemCmd.attributes, q]
  rw [hsat]
  split
  · -- a whole line: the packet may get marked as shared
    have hne : q.cmd.needsExclusive = false := by
      show pkt.cmd.needsExclusive = false
      rw [hcmd]; rfl
    unfold satisfyBlockRead
    rw [hne, if_neg (by simp), htop]
    split
    · split
      · exact ⟨_, rfl, hkeep _ rfl rfl rfl rfl⟩
      · exact ⟨_, rfl, hkeep _ rfl rfl rfl rfl⟩
    · exact ⟨_, rfl, hkeep _ rfl rfl rfl rfl⟩
  · exact ⟨_, rfl, hkeep _ rfl rfl rfl rfl⟩

theorem satisfy_write
    (hcmd : pkt.cmd = .writeReq ∨ pkt.cmd = .writeInvalidateReq) (htop : p.isTopLevel = true)
    (hv : b.isValid = true) (hw : b.isWritable = true) :
    ∃ b' q, satisfyCpuSideRequest p pkt b false false = some (b', q) ∧ Satisfied p pkt b b' q := by
  have hllsc : pkt.cmd.isLLSC = false := by rcases hcmd with hc | hc <;> rw [hc] <;> rfl
  have hresult : pkt.setStoreResult true = pkt := by simp [Packet.setStoreResult, hllsc]
  have hreq : pkt.cmd.isRequest = true ∧ b.isValid = true ∧ pkt.getOffset p.blkSize + pkt.size ≤ p.blkSize :=
    ⟨by rcases hcmd with hc | hc <;> rw [hc] <;> rfl, hv, h.fits⟩
  have hwrite : pkt.cmd ≠ .swapReq ∧ pkt.cmd.isWrite = true ∧ pkt.cmd.isRead = false := by
    rcases hcmd with hc | hc <;> rw [hc] <;> decide
  have hspec : ∀ flat, specStep flat pkt = memcpy flat pkt.addr pkt.data 0 pkt.size := by
    intro flat
    simp [specStep, hwrite.1, hwrite.2.1]
  refine ⟨{ (b.clearLoadLocks pkt.req).writeData (pkt.getOffset p.blkSize) pkt with
    dirty := true }, pkt, ?_, ⟨hv, rfl, rfl⟩, ⟨rfl, rfl, rfl⟩, ?_, fun _ => rfl, ?_, ?_, ?_⟩
  · unfold satisfyCpuSideRequest
    rw [if_pos hreq, if_neg hwrite.1, if_pos (by rw [hwrite.2.1, htop]; simp), if_pos hw]
    simp [CacheBlk.checkWrite, hllsc, hresult]
  · intro hr
    rcases hcmd with hc | hc <;> rw [hc] at hr <;> cases hr
  · intro flat hb
    rw [hspec]
    refine ⟨agreesAt_store hb, fun hd => ?_⟩
    cases hd
  · intro hwi
    obtain ⟨hoff, hsize⟩ := h.whole hwi
    refine ⟨rfl, fun flat o ho => ?_⟩
    -- the write covers the whole line, whatever was there before
    have haddr : (pkt.key p.blkSize).1 = pkt.addr := by
      rw [← key_add_offset pkt p.blkSize, hoff]
      rfl
    rw [hspec, haddr]
    show memcpy b.data (pkt.getOffset p.blkSize) pkt.data 0 pkt.size o = _
    rw [hoff, hsize, memcpy_of_mem (Nat.zero_le _) (by omega),
      memcpy_of_mem (Nat.le_add_right _ _) (by omega), Nat.sub_zero, Nat.add_sub_cancel_left]
  · intro hr
    rw [hwrite.2.2] at hr
    cases hr

theorem satisfy_swap (hcmd : pkt.cmd = .swapReq) (hv : b.isValid = true) :
    ∃ b' q, satisfyCpuSideRequest p pkt b false false = some (b', q) ∧ Satisfied p pkt b b' q := by
  obtain ⟨hsize, hcond⟩ := h.swapSize hcmd
  have hreq : pkt.cmd.isRequest = true := by rw [hcmd]; rfl
  have hover : ∃ overwrite, pkt.swapOverwrites b.data (pkt.getOffset p.blkSize) = some overwrite := by
    unfold Packet.swapOverwrites Packet.condSwapMatches
    split
    · rename_i hc
      rcases hcond hc with h8 | h4
      · rw [if_pos h8]; exact ⟨_, rfl⟩
      · rw [if_neg (by omega), if_pos h4]; exact ⟨_, rfl⟩
    · exact ⟨_, rfl⟩
  obtain ⟨overwrite, hover⟩ := hover
  refine ⟨if overwrite then
      { b.writeData (pkt.getOffset p.blkSize) pkt with dirty := true } else b,
    pkt.setData b.data (pkt.getOffset p.blkSize), ?_, ?_, ⟨rfl, rfl, rfl⟩, ?_, ?_, ?_, ?_, ?_⟩
  · unfold satisfyCpuSideRequest cmpAndSwap
    rw [if_pos ⟨hreq, hv, h.fits⟩, if_pos hcmd]
    simp only [hover, map_some]
    rw [if_pos ⟨hreq, hsize⟩]
  · cases overwrite <;> exact ⟨hv, rfl, rfl⟩
  · intro hr; rw [hcmd] at hr; cases hr
  · intro hd; cases overwrite
    · exact hd
    · rfl
  · intro flat hb
    have hspec : specStep flat pkt =
        if overwrite then memcpy flat pkt.addr pkt.data 0 pkt.size else flat := by
      rw [specStep, if_pos hcmd, ← h.swapOverwrites_eq hb, hover]
      cases overwrite <;> rfl
    rw [hspec]
    cases overwrite with
    | false => exact ⟨hb, fun _ => rfl⟩
    | true => exact ⟨agreesAt_store hb, nofun⟩
  · intro hwi; rw [hcmd] at hwi; cases hwi
  · intro _ o ho
    exact setData_eq _ _ _ ho

/-- **A request is satisfied from a valid block with enough rights.** -/
theorem satisfy_spec (htop : p.isTopLevel = true) (hv : b.isValid = true)
    (hw : pkt.cmd.needsExclusive = true → b.isWritable = true) :
    ∃ b' q, satisfyCpuSideRequest p pkt b false false = some (b', q) ∧ Satisfied p pkt b b' q := by
  rcases h.cases with hcmd | hcmd | hcmd
  · obtain ⟨q, hsat, hspec⟩ := h.satisfy_read hcmd htop hv
    exact ⟨b, q, hsat, hspec⟩
  · exact h.satisfy_swap hcmd hv
  · refine h.satisfy_write hcmd htop hv (hw ?_)
    rcases hcmd with hc | hc <;> rw [hc] <;> rfl

end

end LineRequest

/-! ## Filling a block -/

namespace System

variable {n : Nat} {p : CacheParams} {s : System n} {i : Fin n} {pkt : Packet}

/-- A cache without the victim. -/
def evictedCache (c : Cache) : Option Key → Cache
  | none => c
  | some v => Function.update c v (c v).invalidate

/-- The memory with the victim written back, if it was dirty. -/
def evictedBytes (p : CacheParams) (bytes : Buffer Byte) (c : Cache) : Option Key → Buffer Byte
  | none => bytes
  | some v => if (c v).isDirty then memcpy bytes v.1 (c v).data 0 p.blkSize else bytes

/-- The victim is a valid block, and its line is in the memory. -/
def VictimOk (p : CacheParams) (s : System n) (i : Fin n) (victim : Option Key) : Prop :=
  ∀ v, victim = some v → (s.caches i v).isValid = true ∧ InMem p s.mem v.1

theorem evictedCache_of_invalid {victim : Option Key} {k : Key} (h : VictimOk p s i victim)
    (hk : (s.caches i k).isValid = false) : evictedCache (s.caches i) victim k = s.caches i k := by
  cases victim with
  | none => rfl
  | some v =>
    refine update_of_ne ?_ _ _
    rintro rfl
    rw [(h _ rfl).1] at hk
    cases hk

/-- The same memory but for its bytes and reservations. -/
def SameConfig (m m' : AbstractMemory) : Prop :=
  m'.start = m.start ∧ m'.finish = m.finish ∧ m'.isNull = m.isNull

theorem SameConfig.inMem {m m' : AbstractMemory} {a : Addr} (h : SameConfig m m')
    (ha : InMem p m a) : InMem p m' a := by
  unfold InMem
  rw [h.1, h.2.1]
  exact ha

theorem sendWritebacks_victim {victim : Option Key} (hvictim : VictimOk p s i victim)
    (hnull : s.mem.isNull = false) (s' : System n) (hmem : s'.mem = s.mem) :
    ∃ wbs m, allocateBlock p (s.caches i) victim = some (evictedCache (s.caches i) victim, wbs) ∧
      sendWritebacks p s' i wbs = some { s' with mem := m } ∧
      m.bytes = evictedBytes p s.mem.bytes (s.caches i) victim ∧ SameConfig s.mem m := by
  cases victim with
  | none => exact ⟨[], s'.mem, rfl, rfl, by rw [hmem]; rfl, by rw [hmem]; exact ⟨rfl, rfl, rfl⟩⟩
  | some v =>
    obtain ⟨hvalid, hrange⟩ := hvictim v rfl
    have halloc : allocateBlock p (s.caches i) (some v) = some (evictedCache (s.caches i) (some v),
        if (s.caches i v).isDirty then [writebackBlk p v (s.caches i v)] else []) := by
      simp [allocateBlock, hvalid, evictedCache]
    cases hd : (s.caches i v).isDirty with
    | false =>
      refine ⟨[], s'.mem, by rw [halloc, hd]; rfl, rfl, ?_, by rw [hmem]; exact ⟨rfl, rfl, rfl⟩⟩
      rw [hmem, evictedBytes, hd]
      rfl
    | true =>
      have hwb : IsWriteback p (writebackBlk p v (s.caches i v)) := ⟨rfl, rfl, rfl, rfl⟩
      obtain ⟨m, hsend, hbytes, hcfg⟩ :=
        recvAtomic_writeback (s := s') hwb (hmem ▸ hrange) (hmem ▸ hnull) (some i)
      refine ⟨[writebackBlk p v (s.caches i v)], m, by rw [halloc, hd]; rfl, ?_, ?_, ?_⟩
      · simp [sendWritebacks, exec, hsend]
      · rw [hbytes, hmem, evictedBytes, hd]
        exact memcpy_memcpy
      · rw [hmem] at hcfg
        exact hcfg

/-- The victim that a fill really needs. -/
def usedVictim (c : Cache) (k : Key) (victim : Option Key) : Option Key :=
  if (c k).isValid then none else victim

/-- The block that a fill starts from. -/
def startBlk (c : Cache) (k : Key) : CacheBlk :=
  if (c k).isValid then c k else (c k).invalidate

/-- What is left after the block of key `k` in cache `i` became `b'`, in place of the victim `used`:
    the other caches are those of `s₁`, and the victim is written back. -/
structure Filled (p : CacheParams) (s s₁ : System n) (i : Fin n) (k : Key) (used : Option Key)
    (b' : CacheBlk) (s' : System n) : Prop where
  caches : s'.caches = Function.update s₁.caches i (Function.update (evictedCache (s.caches i) used) k b')
  bytes : s'.mem.bytes = evictedBytes p s.mem.bytes (s.caches i) used
  config : SameConfig s.mem s'.mem

/-- **A fill goes through**: the victim goes, and the request is satisfied from the filled block. -/
theorem fillAndSatisfy_spec {fp q : Packet} {victim : Option Key} {b' : CacheBlk}
    (hkey : fp.key p.blkSize = pkt.key p.blkSize)
    (hfp : (fp.cmd.isResponse = true ∨ fp.cmd.isWriteInvalidate = true) ∧
      (fp.cmd.isRead = true → fp.cmd.hasData = true ∧ fp.size = p.blkSize))
    (hnew : (s.caches i (pkt.key p.blkSize)).isValid = false →
      fp.cmd.hasData = true ∧ (fp.cmd.isRead = true ∨ fp.cmd.isWriteInvalidate = true))
    (hsat : satisfyCpuSideRequest p pkt
      (fillBlk p fp (startBlk (s.caches i) (pkt.key p.blkSize))) false false = some (b', q))
    (hq : q.key p.blkSize = pkt.key p.blkSize) (hvictim : VictimOk p s i victim) (hnull : s.mem.isNull = false) :
    ∃ s', fillAndSatisfy p s i fp pkt victim = some (s', q) ∧
      Filled p s s i (pkt.key p.blkSize) (usedVictim (s.caches i) (pkt.key p.blkSize) victim) b' s' := by
  unfold fillAndSatisfy handleFill
  rw [if_pos hfp, hkey]
  cases hv : (s.caches i (pkt.key p.blkSize)).isValid with
  | true =>
    rw [startBlk, hv, if_pos rfl] at hsat
    simp only [if_true, bind_some, update_self, hsat, hq, update_idem, sendWritebacks, exec, map_some, usedVictim, hv]
    exact ⟨_, rfl, rfl, rfl, rfl, rfl, rfl⟩
  | false =>
    rw [startBlk, hv, if_neg (by simp)] at hsat
    obtain ⟨wbs, m, halloc, hsend, hbytes, hcfg⟩ :=
      sendWritebacks_victim hvictim hnull
        (s.setCache i (Function.update (evictedCache (s.caches i) victim) (pkt.key p.blkSize) b')) rfl
    simp only [Bool.false_eq_true, if_false, if_pos (hnew hv), halloc, map_some,
      bind_some, update_self, usedVictim, hv]
    rw [evictedCache_of_invalid hvictim hv, hsat, bind_some]
    simp only [hq, update_idem]
    refine ⟨_, by rw [hsend]; rfl, rfl, hbytes, hcfg⟩

end System

end NvpSim.Mem
