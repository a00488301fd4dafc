/-
  What a request on the crossbar does to the caches it snoops, in closed form.

  A snoop changes one block: it loses its right to write (a cacheable read) or goes altogether (an invalidate),
  and at most one dirty block ANSWERS, inhibits the memory and puts its bytes into the packet.

  The crossbar asks the caches one after the other, with the packet as the last one left it.  `turn` is one of
  them; the fold over all of them is `forwardAtomic_spec`.  From it come the two ways in which a request ends: a
  cache answers and the memory does not see it (`recvAtomic_answered`), or the memory does it
  (`recvAtomic_quiet`).
-/
import NvpSim.Mem.CoherentXBar

namespace NvpSim.Mem

open NvpSim.Lib Cache List

/-! ## One snooped block -/

namespace Packet

/-- A snooped block loses its right to write. -/
def shares (pkt : Packet) : Bool :=
  !pkt.req.isUncacheable && pkt.cmd.isRead && !pkt.cmd.isInvalidate

/-- The block after a snoop. -/
def snoopBlk (pkt : Packet) (b : CacheBlk) : CacheBlk :=
  if b.isValid then
    let b := if pkt.shares then { b with writable := false } else b
    if pkt.cmd.isInvalidate then b.invalidate else b
  else b

/-- The block answers the snoop. -/
def answers (pkt : Packet) (b : CacheBlk) : Bool :=
  b.isValid && b.isDirty && pkt.cmd.needsResponse && !pkt.cmd.isWriteInvalidate

/-- The mark a block leaves on the packet. -/
def mark (pkt : Packet) (b : CacheBlk) : Packet :=
  if b.isValid && pkt.shares then pkt.assertShared else pkt

/-- The packet with the bytes of a block that answers. -/
def answered (p : CacheParams) (pkt : Packet) (b : CacheBlk) : Packet :=
  { pkt with
    memInhibitAsserted := true
    isSupplyExclusive := pkt.isSupplyExclusive || b.isWritable
    data := memcpy pkt.data 0 b.data (pkt.getOffset p.blkSize) pkt.size }

/-- Requests that a snooper handles in full: not a writeback and not a hardware prefetch, and a
    request that only shares does not need exclusivity. -/
structure Snoopable (pkt : Packet) : Prop where
  isRequest : pkt.cmd.isRequest = true
  notWriteback : pkt.cmd ≠ .writeback
  notHardPF : pkt.cmd ≠ .hardPFReq
  sharing : pkt.shares = true → pkt.cmd.needsExclusive = false

variable {p : CacheParams} {pkt : Packet} {c : Cache} {b : CacheBlk}

theorem mark_eq (pkt : Packet) (b : CacheBlk) : pkt.mark b = { pkt with
      sharedAsserted := pkt.sharedAsserted || (b.isValid && pkt.shares) } := by
  unfold mark
  split
  · rename_i h; simp [h, assertShared]
  · rename_i h; simp [h]

theorem supply_eq (hreq : pkt.cmd.isRequest = true) (hinh : pkt.memInhibitAsserted = false) :
    supply p pkt b = some { pkt.answered p b with cmd := pkt.cmd.responseCommand } := by
  unfold supply assertMemInhibit
  rw [if_pos ⟨hreq, hinh⟩]
  cases hw : b.isWritable <;> simp [answered, makeResponse, setData, getOffset, hw]

theorem isResponse_of_answers (h : pkt.answers b = true) : pkt.cmd.responseCommand.isResponse = true := by
  simp only [answers, Bool.and_eq_true] at h
  exact (MemCmd.responseCommand_isResponse _ h.1.2).2.1

/-- **One snoop, in closed form.** -/
theorem Snoopable.recvAtomicSnoop_eq (h : pkt.Snoopable) : recvAtomicSnoop p c pkt = (let b := c (pkt.key p.blkSize)
       (if pkt.answers b then supply p (pkt.mark b) b else some (pkt.mark b)).map fun pkt' =>
         (Function.update c (pkt.key p.blkSize) (pkt.snoopBlk b), pkt')) := by
  unfold recvAtomicSnoop handleSnoop
  rw [if_neg h.notWriteback]
  simp only [h.isRequest, if_neg h.notHardPF, Bool.true_eq_false, if_false]
  cases hv : (c (pkt.key p.blkSize)).isValid with
  | false =>
    simp [answers, snoopBlk, mark, hv]
  | true =>
    have hshare : ¬ ((!pkt.req.isUncacheable && pkt.cmd.isRead && !pkt.cmd.isInvalidate) = true ∧
        pkt.cmd.needsExclusive = true) := by
      rintro ⟨hs, hne⟩
      rw [h.sharing hs] at hne
      cases hne
    simp only [if_neg hshare, answers, snoopBlk, mark, shares, hv, Bool.true_and,
      Bool.true_eq_false, if_false, if_true]
    rfl

end Packet

/-! ## All snooped blocks -/

namespace System

variable {n : Nat} {p : CacheParams} {s : System n} {pkt : Packet} {src : Option (Fin n)}

/-- The block of cache `j` that a packet is about. -/
def blkOf (p : CacheParams) (s : System n) (pkt : Packet) (j : Fin n) : CacheBlk :=
  s.caches j (pkt.key p.blkSize)

/-- Cache `j` after a snoop. -/
def snoopCache (p : CacheParams) (s : System n) (pkt : Packet) (j : Fin n) : Cache :=
  Function.update (s.caches j) (pkt.key p.blkSize) (pkt.snoopBlk (blkOf p s pkt j))

section Port

variable {f : Forwarded n} {j : Fin n}

theorem snoopPort_quiet (hsn : f.pkt.Snoopable) (h : f.pkt.answers (blkOf p f.sys f.pkt j) = false) :
    snoopPort p f.pkt.cmd f j = some ⟨f.sys.setCache j (snoopCache p f.sys f.pkt j),
      f.pkt.mark (blkOf p f.sys f.pkt j), f.snoopResponseCmd⟩ := by
  have hcmd : (f.pkt.mark (blkOf p f.sys f.pkt j)).cmd.isResponse = false := by
    rw [Packet.mark_eq]
    exact MemCmd.isResponse_of_isRequest _ hsn.isRequest
  unfold snoopPort
  rw [hsn.recvAtomicSnoop_eq]
  simp only [blkOf] at h hcmd
  simp only [h, Bool.false_eq_true, if_false, Option.map_some, Option.bind_some, hcmd, if_true]
  rfl

theorem snoopPort_answer (hsn : f.pkt.Snoopable)
    (h : f.pkt.answers (blkOf p f.sys f.pkt j) = true) (hinh : f.pkt.memInhibitAsserted = false)
    (hresp : f.snoopResponseCmd = .invalidCmd) :
    snoopPort p f.pkt.cmd f j = some ⟨f.sys.setCache j (snoopCache p f.sys f.pkt j),
      (f.pkt.mark (blkOf p f.sys f.pkt j)).answered p (blkOf p f.sys f.pkt j), f.pkt.cmd.responseCommand⟩ := by
  have hisResp := Packet.isResponse_of_answers h
  have hne : f.pkt.cmd.responseCommand ≠ f.pkt.cmd := by
    intro heq
    rw [heq, MemCmd.isResponse_of_isRequest _ hsn.isRequest] at hisResp
    cases hisResp
  unfold snoopPort
  rw [hsn.recvAtomicSnoop_eq]
  simp only [blkOf] at h
  simp only [h, if_true]
  rw [Packet.supply_eq (by rw [Packet.mark_eq]; exact hsn.isRequest) (by rw [Packet.mark_eq]; exact hinh)]
  have hmark : (f.pkt.mark (f.sys.caches j (f.pkt.key p.blkSize))).cmd = f.pkt.cmd := by
    rw [Packet.mark_eq]
  simp only [Option.map_some, Option.bind_some, hmark, hisResp, Bool.true_eq_false, if_false,
    ne_eq, hne, not_false_eq_true, Packet.answered, hresp, and_self, if_true, blkOf, snoopCache]

end Port

/-- What the ports `done` have made of a request. -/
structure Snooped (p : CacheParams) (s : System n) (pkt : Packet) (done : List (Fin n))
    (f : Forwarded n) : Prop where
  mem : f.sys.mem = s.mem
  caches : ∀ j, f.sys.caches j = if j ∈ done then snoopCache p s pkt j else s.caches j
  same : f.pkt.cmd = pkt.cmd ∧ f.pkt.req = pkt.req ∧ f.pkt.addr = pkt.addr ∧
    f.pkt.isSecure = pkt.isSecure ∧ f.pkt.size = pkt.size
  shared : f.pkt.sharedAsserted = true ↔ pkt.sharedAsserted = true ∨
      pkt.shares = true ∧ ∃ j ∈ done, (blkOf p s pkt j).isValid = true
  quiet : (∀ j ∈ done, pkt.answers (blkOf p s pkt j) = false) →
    f.pkt.memInhibitAsserted = false ∧ f.pkt.data = pkt.data ∧ f.snoopResponseCmd = .invalidCmd
  answer : ∀ j ∈ done, pkt.answers (blkOf p s pkt j) = true → f.pkt.memInhibitAsserted = true ∧
      f.pkt.data = memcpy pkt.data 0 (blkOf p s pkt j).data (pkt.getOffset p.blkSize) pkt.size ∧
      f.snoopResponseCmd = pkt.cmd.responseCommand

namespace Snooped

variable {done : List (Fin n)} {f : Forwarded n} {j : Fin n}

theorem start (hinh : pkt.memInhibitAsserted = false) : Snooped p s pkt [] ⟨s, pkt, .invalidCmd⟩ where
  mem := rfl
  caches := fun j => by simp
  same := ⟨rfl, rfl, rfl, rfl, rfl⟩
  shared := by simp
  quiet := fun _ => ⟨hinh, rfl, rfl⟩
  answer := by simp

section

variable (h : Snooped p s pkt done f)

include h

theorem header (hsn : pkt.Snoopable) (hj : j ∉ done) :
    f.pkt.Snoopable ∧ f.pkt.shares = pkt.shares ∧ blkOf p f.sys f.pkt j = blkOf p s pkt j ∧
      f.pkt.answers = pkt.answers ∧ snoopCache p f.sys f.pkt j = snoopCache p s pkt j ∧
      f.pkt.getOffset p.blkSize = pkt.getOffset p.blkSize := by
  obtain ⟨hcmd, hreq, haddr, hsec, -⟩ := h.same
  have hcache : f.sys.caches j = s.caches j := by rw [h.caches, if_neg hj]
  have hshares : f.pkt.shares = pkt.shares := by simp only [Packet.shares, hcmd, hreq]
  have hkey : f.pkt.key p.blkSize = pkt.key p.blkSize := by simp only [Packet.key, haddr, hsec]
  have hblk : blkOf p f.sys f.pkt j = blkOf p s pkt j := by simp only [blkOf, hcache, hkey]
  refine ⟨⟨hcmd ▸ hsn.isRequest, hcmd ▸ hsn.notWriteback, hcmd ▸ hsn.notHardPF, ?_⟩, hshares,
    hblk, ?_, ?_, by simp only [Packet.getOffset, haddr]⟩
  · rw [hshares, hcmd]; exact hsn.sharing
  · funext b; simp only [Packet.answers, hcmd]
  · simp only [snoopCache, hblk, hcache, hkey, Packet.snoopBlk, hshares, hcmd]

theorem caches_turn (k : Fin n) : (f.sys.setCache j (snoopCache p s pkt j)).caches k =
      if k ∈ done ++ [j] then snoopCache p s pkt k else s.caches k := by
  by_cases hk : k = j
  · subst hk; simp [setCache]
  · simp only [setCache, Function.update_of_ne hk, h.caches, mem_append, mem_singleton, hk, or_false]

theorem shared_turn (hshares : f.pkt.shares = pkt.shares) :
    (f.pkt.mark (blkOf p s pkt j)).sharedAsserted = true ↔ pkt.sharedAsserted = true ∨
      pkt.shares = true ∧ ∃ k ∈ done ++ [j], (blkOf p s pkt k).isValid = true := by
  have hsplit : (∃ k ∈ done ++ [j], (blkOf p s pkt k).isValid = true) ↔
      (∃ k ∈ done, (blkOf p s pkt k).isValid = true) ∨ (blkOf p s pkt j).isValid = true := by
    simp only [mem_append, mem_singleton, or_and_right, exists_or, exists_eq_left]
  rw [Packet.mark_eq, Bool.or_eq_true, h.shared, hshares, Bool.and_eq_true, hsplit, and_or_left, or_assoc]
  exact or_congr_right (or_congr_right and_comm)

/-- **One more port.** -/
theorem turn (hsn : pkt.Snoopable) (hj : j ∉ done)
    (hone : pkt.answers (blkOf p s pkt j) = true → ∀ k ∈ done, pkt.answers (blkOf p s pkt k) = false) :
    ∃ f', snoopPort p pkt.cmd f j = some f' ∧ Snooped p s pkt (done ++ [j]) f' := by
  obtain ⟨hcmd, hreq, haddr, hsec, hsize⟩ := h.same
  obtain ⟨hsn', hshares, hblk, hanswers, hcache, hoff⟩ := h.header hsn hj
  cases ha : pkt.answers (blkOf p s pkt j) with
  | false =>
    have hport := snoopPort_quiet (p := p) (j := j) hsn' (by rw [hblk, hanswers]; exact ha)
    rw [hcmd, hblk, hcache] at hport
    refine ⟨_, hport, h.mem, h.caches_turn, ?_, h.shared_turn hshares, ?_, ?_⟩
    · rw [Packet.mark_eq]
      exact h.same
    · intro hquiet
      rw [Packet.mark_eq]
      exact h.quiet fun k hk => hquiet k (mem_append_left _ hk)
    · intro k hk hak
      rw [Packet.mark_eq]
      rcases mem_append.mp hk with hk | hk
      · exact h.answer k hk hak
      · rw [mem_singleton.mp hk, ha] at hak
        cases hak
  | true =>
    obtain ⟨hinh, hdata, hresp⟩ := h.quiet (hone ha)
    have hport := snoopPort_answer (p := p) (j := j) hsn' (by rw [hblk, hanswers]; exact ha) hinh hresp
    rw [hcmd, hblk, hcache] at hport
    refine ⟨_, hport, h.mem, h.caches_turn, ?_, h.shared_turn hshares, ?_, ?_⟩
    · simp only [Packet.answered, Packet.mark_eq]
      exact h.same
    · intro hquiet
      rw [hquiet j (by simp)] at ha
      cases ha
    · intro k hk hak
      rcases mem_append.mp hk with hk | hk
      · rw [hone ha k hk] at hak
        cases hak
      · rw [mem_singleton.mp hk]
        refine ⟨rfl, ?_, rfl⟩
        simp only [Packet.answered, Packet.mark_eq, hdata, Packet.getOffset, haddr, hsize]

end

end Snooped

/-- No port of two would answer the same request. -/
def OneAnswer (p : CacheParams) (s : System n) (pkt : Packet) (src : Option (Fin n)) : Prop :=
  ∀ j k, some j ≠ src → some k ≠ src → pkt.answers (blkOf p s pkt j) = true →
    pkt.answers (blkOf p s pkt k) = true → k = j

/-- **All snoops, in closed form**: if at most one port would answer, the loop goes through, and the
    order of the ports does not matter. -/
theorem forwardAtomic_spec (hsn : pkt.Snoopable) (hinh : pkt.memInhibitAsserted = false)
    (hone : OneAnswer p s pkt src) :
    ∃ f, forwardAtomic p s pkt src = some f ∧ Snooped p s pkt (snoopPorts src) f := by
  refine exec_of_turns (P := Snooped p s pkt) ?_ (Snooped.start hinh)
  intro done j rest f hports h
  have hnd : (done ++ j :: rest).Nodup := hports ▸ (nodup_finRange n).filter _
  have hmem : ∀ k ∈ done ++ j :: rest, some k ≠ src := by
    intro k hk
    rw [← hports] at hk
    simpa [snoopPorts] using hk
  have hj : j ∉ done := by
    intro hj
    exact (disjoint_of_nodup_append hnd) hj mem_cons_self
  refine h.turn hsn hj fun ha k hk => ?_
  by_contra hak
  have hjk : k = j := hone j k (hmem j (by simp)) (hmem k (by simp [hk])) ha (by simpa using hak)
  exact hj (hjk ▸ hk)

theorem mem_snoopPorts {j : Fin n} : j ∈ snoopPorts src ↔ some j ≠ src := by
  simp [snoopPorts]

/-- **A request that a snooper answers**: the memory is inhibited, and the answer is the response. -/
theorem recvAtomic_answered (hsn : pkt.Snoopable) (hinh : pkt.memInhibitAsserted = false)
    (hone : OneAnswer p s pkt src)
    (hrange : s.mem.start ≤ pkt.addr ∧ pkt.addr + pkt.size - 1 ≤ s.mem.finish) {j : Fin n}
    (hj : some j ≠ src) (ha : pkt.answers (blkOf p s pkt j) = true) : ∃ f, Snooped p s pkt (snoopPorts src) f ∧
      recvAtomic p s pkt src = some (f.sys, { f.pkt with cmd := pkt.cmd.responseCommand }) := by
  obtain ⟨f, hf, hsnooped⟩ := forwardAtomic_spec hsn hinh hone
  obtain ⟨hinh', -, hresp⟩ := hsnooped.answer j (mem_snoopPorts.mpr hj) ha
  obtain ⟨hcmd, -, haddr, -, hsize⟩ := hsnooped.same
  have hisResp := Packet.isResponse_of_answers ha
  have hne : pkt.cmd.responseCommand ≠ .invalidCmd := by
    intro heq
    rw [heq] at hisResp
    cases hisResp
  have haccess : f.sys.mem.access f.pkt = some (f.sys.mem, f.pkt) := by
    unfold AbstractMemory.access
    rw [if_pos (by rw [hsnooped.mem, haddr, hsize]; exact hrange), hinh', if_pos rfl]
  have hnresp : f.pkt.cmd.isResponse = false := by
    rw [hcmd]
    exact MemCmd.isResponse_of_isRequest _ hsn.isRequest
  refine ⟨f, hsnooped, ?_⟩
  unfold recvAtomic
  rw [hf, Option.bind_some, haccess, Option.bind_some]
  simp only [hresp, hne, if_false, hnresp, Bool.false_eq_true]

/-- **A request that no snooper answers** goes on to the memory. -/
theorem recvAtomic_quiet (hsn : pkt.Snoopable) (hinh : pkt.memInhibitAsserted = false)
    (hquiet : ∀ j, some j ≠ src → pkt.answers (blkOf p s pkt j) = false) :
    ∃ f, Snooped p s pkt (snoopPorts src) f ∧ f.pkt.memInhibitAsserted = false ∧ f.pkt.data = pkt.data ∧
      recvAtomic p s pkt src = (s.mem.access f.pkt).map fun r => ({ f.sys with mem := r.1 }, r.2) := by
  have hone : OneAnswer p s pkt src := by
    intro j l hj _ ha
    rw [hquiet j hj] at ha
    cases ha
  obtain ⟨f, hf, hsnooped⟩ := forwardAtomic_spec hsn hinh hone
  obtain ⟨hinh', hdata, hresp⟩ := hsnooped.quiet fun j hj => hquiet j (mem_snoopPorts.mp hj)
  refine ⟨f, hsnooped, hinh', hdata, ?_⟩
  unfold recvAtomic
  rw [hf, Option.bind_some, hsnooped.mem]
  cases s.mem.access f.pkt with
  | none => rfl
  | some r => simp only [Option.bind_some, hresp, if_true, Option.map_some]

/-! ## Requests for a block -/

/-- The whole of a line is in the memory. -/
def InMem (p : CacheParams) (m : AbstractMemory) (a : Addr) : Prop :=
  m.start ≤ a ∧ a + p.blkSize - 1 ≤ m.finish

/-- A request that a cache makes for a block: read, read exclusive, upgrade or write-invalidate. -/
structure BlockRequest (p : CacheParams) (bus : Packet) : Prop where
  cmd : bus.cmd ∈ [MemCmd.readReq, .readExReq, .upgradeReq, .writeInvalidateReq]
  cacheable : bus.req.isUncacheable = false
  aligned : bus.getOffset p.blkSize = 0
  size : bus.size = p.blkSize
  fresh : bus.sharedAsserted = false ∧ bus.memInhibitAsserted = false

namespace BlockRequest

variable {bus : Packet}

section

variable (h : BlockRequest p bus)

include h

theorem key_eq : bus.key p.blkSize = (bus.addr, bus.isSecure) := by
  have := h.aligned
  unfold Packet.getOffset at this
  simp [Packet.key, blockAlign, this]

theorem cases : bus.cmd = .readReq ∨ bus.cmd = .readExReq ∨ bus.cmd = .upgradeReq ∨
      bus.cmd = .writeInvalidateReq := by
  have := h.cmd
  simpa only [mem_cons, not_mem_nil, or_false] using this

theorem shares_iff : bus.shares = true ↔ bus.cmd = .readReq := by
  unfold Packet.shares
  rw [h.cacheable]
  rcases h.cases with hc | hc | hc | hc <;> rw [hc] <;> decide

theorem snoopable : bus.Snoopable := by
  refine ⟨?_, ?_, ?_, fun hs => ?_⟩
  · rcases h.cases with hc | hc | hc | hc <;> rw [hc] <;> rfl
  · rcases h.cases with hc | hc | hc | hc <;> rw [hc] <;> decide
  · rcases h.cases with hc | hc | hc | hc <;> rw [hc] <;> decide
  · rw [h.shares_iff.mp hs]; rfl

theorem answers_iff (b : CacheBlk) : bus.answers b = true ↔
      b.isValid = true ∧ b.isDirty = true ∧ bus.cmd ≠ .writeInvalidateReq := by
  unfold Packet.answers
  rcases h.cases with hc | hc | hc | hc <;> rw [hc] <;>
    simp [MemCmd.needsResponse, MemCmd.isWriteInvalidate, MemCmd.isWrite, MemCmd.isInvalidate,
      MemCmd.testCmdAttrib, MemCmd.attributes]

theorem access {m : AbstractMemory} (hm : InMem p m bus.addr) (hnull : m.isNull = false) {pkt : Packet}
    (hcmd : pkt.cmd = bus.cmd) (haddr : pkt.addr = bus.addr) (hsize : pkt.size = bus.size) : m.access pkt = some (m,
      if pkt.memInhibitAsserted then pkt
      else if pkt.cmd.isRead then (pkt.setData m.bytes pkt.addr).makeResponse
      else pkt.makeResponse) := by
  unfold AbstractMemory.access
  rw [if_pos (by rw [haddr, hsize, h.size]; exact hm)]
  split
  · rfl
  · rcases h.cases with hc | hc | hc | hc <;> rw [hc] at hcmd <;>
      simp [AbstractMemory.perform, AbstractMemory.read, hcmd, hnull, MemCmd.isRead,
        MemCmd.isWrite, MemCmd.isLLSC, MemCmd.isInvalidate, MemCmd.needsResponse,
        MemCmd.testCmdAttrib, MemCmd.attributes, Packet.setData]

end

end BlockRequest

/-- What a block request of cache `i` does: the others are snooped, the memory keeps its state, and
    the response says who else had the block and what its bytes are. -/
structure BlockResult (p : CacheParams) (s : System n) (bus : Packet) (i : Fin n) (s' : System n)
    (bus' : Packet) : Prop where
  mem : s'.mem = s.mem
  self : s'.caches i = s.caches i
  others : ∀ j, j ≠ i → s'.caches j = snoopCache p s bus j
  cmd : bus'.cmd = bus.cmd.responseCommand
  same : bus'.addr = bus.addr ∧ bus'.isSecure = bus.isSecure ∧ bus'.size = bus.size
  shared : bus'.sharedAsserted = true ↔ bus.cmd = .readReq ∧ ∃ j, j ≠ i ∧ (blkOf p s bus j).isValid = true
  inhibit : bus'.memInhibitAsserted = true ↔ ∃ j, j ≠ i ∧ bus.answers (blkOf p s bus j) = true
  supplied : ∀ j, j ≠ i → bus.answers (blkOf p s bus j) = true →
    ∀ o, o < p.blkSize → bus'.data o = (blkOf p s bus j).data o
  fetched : (∀ j, j ≠ i → bus.answers (blkOf p s bus j) = false) → bus.cmd.isRead = true →
    ∀ o, o < p.blkSize → bus'.data o = s.mem.bytes (bus.addr + o)

/-- **A block request goes through.** -/
theorem recvAtomic_block {bus : Packet} {i : Fin n} (h : BlockRequest p bus)
    (hone : OneAnswer p s bus (some i)) (hm : InMem p s.mem bus.addr) (hnull : s.mem.isNull = false) :
    ∃ s' bus', recvAtomic p s bus (some i) = some (s', bus') ∧ BlockResult p s bus i s' bus' := by
  have hport : ∀ {j}, j ∈ snoopPorts (some i) ↔ j ≠ i := by
    intro j
    rw [mem_snoopPorts]
    simp
  have hsrc : ∀ j, some j ≠ some i ↔ j ≠ i := by simp
  have hshared : ∀ f, Snooped p s bus (snoopPorts (some i)) f → (f.pkt.sharedAsserted = true ↔
      bus.cmd = .readReq ∧ ∃ j, j ≠ i ∧ (blkOf p s bus j).isValid = true) := by
    intro f hf
    rw [hf.shared, h.fresh.1, h.shares_iff]
    simp only [Bool.false_eq_true, false_or, hport]
  have hself : ∀ f, Snooped p s bus (snoopPorts (some i)) f → f.sys.caches i = s.caches i := by
    intro f hf
    rw [hf.caches, if_neg (by rw [hport]; simp)]
  have hothers : ∀ f, Snooped p s bus (snoopPorts (some i)) f →
      ∀ j, j ≠ i → f.sys.caches j = snoopCache p s bus j := by
    intro f hf j hj
    rw [hf.caches, if_pos (hport.mpr hj)]
  by_cases hans : ∃ j, j ≠ i ∧ bus.answers (blkOf p s bus j) = true
  · -- a snooper answers: the memory is inhibited
    obtain ⟨j, hj, ha⟩ := hans
    obtain ⟨f, hf, hrecv⟩ := recvAtomic_answered h.snoopable h.fresh.2 hone
      (by rw [h.size]; exact hm) ((hsrc j).mpr hj) ha
    obtain ⟨hinh, hdata, -⟩ := hf.answer j (hport.mpr hj) ha
    obtain ⟨-, -, haddr, hsec, hsize⟩ := hf.same
    refine ⟨_, _, hrecv, hf.mem, hself f hf, hothers f hf, rfl, ⟨haddr, hsec, hsize⟩,
      hshared f hf, iff_of_true hinh ⟨j, hj, ha⟩, ?_, ?_⟩
    · intro k hk hak o ho
      obtain rfl := hone j k ((hsrc j).mpr hj) ((hsrc k).mpr hk) ha hak
      show f.pkt.data o = _
      rw [hdata, h.aligned, memcpy_of_mem (Nat.zero_le _) (by rw [h.size]; omega)]
      simp
    · intro hnone
      rw [hnone j hj] at ha
      cases ha
  · -- nobody answers: the memory does
    have hnone : ∀ j, j ≠ i → bus.answers (blkOf p s bus j) = false :=
      fun j hj => Bool.eq_false_iff.mpr fun ha => hans ⟨j, hj, ha⟩
    obtain ⟨f, hf, hinh, -, hrecv⟩ := recvAtomic_quiet h.snoopable h.fresh.2 fun j hj => hnone j ((hsrc j).mp hj)
    obtain ⟨hcmd, -, haddr, hsec, hsize⟩ := hf.same
    rw [h.access hm hnull hcmd haddr hsize, hinh] at hrecv
    simp only [Bool.false_eq_true, if_false] at hrecv
    refine ⟨_, _, hrecv, rfl, hself f hf, hothers f hf, ?_, ?_, ?_, ?_, ?_, ?_⟩
    · split <;> exact congrArg MemCmd.responseCommand hcmd
    · split <;> exact ⟨haddr, hsec, hsize⟩
    · split <;> exact hshared f hf
    · split <;> exact iff_of_false (by simp [Packet.makeResponse, Packet.setData, hinh]) hans
    · intro j hj ha
      rw [hnone j hj] at ha
      cases ha
    · intro _ hread o ho
      rw [hcmd, hread]
      show memcpy f.pkt.data 0 s.mem.bytes f.pkt.addr f.pkt.size o = _
      rw [haddr, hsize, h.size, memcpy_of_mem (Nat.zero_le _) (by omega)]
      simp

/-! ## Writebacks -/

/-- A writeback of a whole line. -/
structure IsWriteback (p : CacheParams) (wb : Packet) : Prop where
  cmd : wb.cmd = .writeback
  size : wb.size = p.blkSize
  fresh : wb.memInhibitAsserted = false
  notFetch : wb.req.isInstFetch = false

/-- **A writeback goes through**: no cache notices, and the line goes to memory. -/
theorem recvAtomic_writeback {wb : Packet} (h : IsWriteback p wb) (hm : InMem p s.mem wb.addr)
    (hnull : s.mem.isNull = false) (src : Option (Fin n)) :
    ∃ m, recvAtomic p s wb src = some ({ s with mem := m }, wb) ∧
      m.bytes = memcpy s.mem.bytes wb.addr wb.data 0 p.blkSize ∧ m.start = s.mem.start ∧
      m.finish = s.mem.finish ∧ m.isNull = s.mem.isNull := by
  -- every port ignores a writeback
  have hturn : ∀ done j rest f, snoopPorts src = done ++ j :: rest → f = (⟨s, wb, .invalidCmd⟩ : Forwarded n) →
      ∃ f', snoopPort p wb.cmd f j = some f' ∧ f' = ⟨s, wb, .invalidCmd⟩ := by
    rintro done j rest f - rfl
    refine ⟨_, ?_, rfl⟩
    have hresp : wb.cmd.isResponse = false := by rw [h.cmd]; rfl
    simp only [snoopPort, recvAtomicSnoop, if_pos h.cmd, Option.bind_some, hresp, if_true,
      setCache, Function.update_eq_self]
  have hforward : forwardAtomic p s wb src = some ⟨s, wb, .invalidCmd⟩ := by
    obtain ⟨f, hf, rfl⟩ :=
      exec_of_turns (P := fun _ f => f = (⟨s, wb, .invalidCmd⟩ : Forwarded n)) hturn rfl
    exact hf
  obtain ⟨m, haccess, hbytes, hcfg⟩ := AbstractMemory.access_store s.mem wb
    (Or.inr h.cmd) (by rw [h.size]; exact hm) h.fresh h.notFetch hnull
  have hneeds : wb.cmd.needsResponse = false := by rw [h.cmd]; rfl
  rw [hneeds] at haccess
  refine ⟨m, ?_, by rw [hbytes, h.size], hcfg⟩
  unfold recvAtomic
  rw [hforward, Option.bind_some, haccess]
  rfl

end System

end NvpSim.Mem
