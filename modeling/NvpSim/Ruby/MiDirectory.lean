/-
  What each transition of the MI_example directory does to the system, one lemma for each pair of a state and an
  event in the table that is not recycled.

  Later proofs use these and not the table.
-/
import NvpSim.Ruby.MiSystem

namespace NvpSim.Ruby.Mi

variable {B n k : Nat} {s : Sys B} {i d o : Nat} {owner owner' : NetDest} {w : Line B}

/-- A message is added to the forward queue of a cache. -/
def Node.tell (msg : RequestMsg B) (c : Node B) : Node B := { c with forwards := c.forwards ++ [msg] }

/-- A message is added to the response queue of a DMA controller. -/
def DmaNode.answer (msg : DmaResponseMsg B) (c : DmaNode B) : DmaNode B :=
  { c with responses := c.responses ++ [msg] }

/-- The request of a cache is taken from its queue. -/
def Node.taken (c : Node B) : Node B := { c with requests := c.requests.tail }

/-- The request of a DMA controller is taken from its queue. -/
def DmaNode.taken (c : DmaNode B) : DmaNode B := { c with requests := c.requests.tail }

/-- The directory looks at the message again later. -/
def Recycled (st : DirState) (event : DirEvent) : Prop :=
  st ≠ .M ∧ st ≠ .I ∧ (dirTransition st event = some ([.zRecycleRequestQueue], st) ∨
    dirTransition st event = some ([.yRecycleDMARequestQueue], st))

instance (st : DirState) (event : DirEvent) : Decidable (Recycled st event) :=
  inferInstanceAs (Decidable (_ ∧ _ ∧ (_ ∨ _)))

/-- A blocked directory recycles a request for the block. -/
theorem recycled_GETX {st : DirState} (hM : st ≠ .M) (hI : st ≠ .I) : Recycled st .GETX := by
  revert hM hI
  cases st <;> decide

/-- While the directory waits for the memory alone, it takes no request. -/
theorem recycled_request {st : DirState} {event : DirEvent} (hst : st ∈ [.ID, .ID_W, .IM, .MI])
    (hevent : event ∉ [.Memory_Data, .Memory_Ack]) : Recycled st event := by
  revert hst hevent
  cases st <;> cases event <;> decide

namespace Sys

-- The rows of the table, the actions, and what they do, for every `simp` below.
attribute [local simp] dirTransition perform doTransition Directory.getState Directory.setState
  peekRequest peekDma peekMem requestQueue dmaRequestQueue memQueue queueMemory atNode atDma
  allocateTBE Node.taken DmaNode.taken DmaNode.answer MachineID.machine

/-- A forward goes to the owner alone. -/
theorem forward_l1Cache (hn : n ≤ 32) (hk : k ≤ 32) (hi : i < n) {nd : NetDest}
    (hnd : OwnerIs n k nd (some i)) (msg : RequestMsg B) :
    s.forward n nd msg = s.atNode i (Node.tell msg) := toCaches_owner hn hk hnd hi _

variable {st : DirState} {offset len : Nat} {l : Line B} {r : DmaRequest}

/-- **A recycled message** stays at the head of its queue, and nothing changes. -/
theorem recycle {port : DirPort} {event : DirEvent} (hrec : Recycled s.dir.state event)
    (htbe : ∀ tbe ∈ s.dir.tbe, tbe.state = s.dir.state) :
    s.doTransition n k port event = some s := by
  obtain ⟨hM, hI, htrans⟩ := hrec
  obtain ⟨nodes, dmas, ⟨state, owner, tbe⟩, q, a, m, log⟩ := s
  dsimp only at hM hI htrans htbe
  have hget : Directory.getState (⟨state, owner, tbe⟩ : Directory B) = state := by
    cases tbe with
    | none => rfl
    | some tbe => exact htbe tbe rfl
  have hset : Directory.setState (⟨state, owner, tbe⟩ : Directory B) state = some ⟨state, owner, tbe⟩ := by
    rw [Directory.setState, if_pos ⟨fun h => absurd h hM, fun h => absurd h hI⟩]
    cases tbe with
    | none => rfl
    | some tbe =>
      have heq : { tbe with state := state } = tbe := by rw [← htbe tbe rfl]
      rw [Option.map_some, heq]
  unfold doTransition
  rw [hget]
  rcases htrans with htrans | htrans
  · rw [htrans]
    show (Directory.setState _ state).map _ = _
    rw [hset]
    rfl
  · rw [htrans]
    show (Directory.setState _ state).map _ = _
    rw [hset]
    rfl

/-! ## Requests of caches -/

/-- Nobody has the block: it is fetched from memory for its new owner. -/
theorem request_I_GETX (hreq : (s.nodes i).requests = [⟨.GETX, .l1Cache i, w⟩])
    (hdir : s.dir = ⟨.I, owner, none⟩) (hadd : owner.clear.add 0 i = some owner') :
    s.requestQueue n k i = some { s.atNode i Node.taken with
      dir := ⟨.IM, owner', none⟩, toMemory := s.toMemory ++ [.read (.l1Cache i)] } := by
  simp [hreq, hdir, hadd]

/-- **Another cache owns the block**: it is told to pass it on, and the owner changes at once. -/
theorem request_M_GETX (hn : n ≤ 32) (hk : k ≤ 32)
    (hreq : (s.nodes i).requests = [⟨.GETX, .l1Cache i, w⟩]) (hdir : s.dir = ⟨.M, owner, none⟩)
    (ho : OwnerIs n k owner (some o)) (hon : o < n) (hne : i ≠ o)
    (hadd : owner.clear.add 0 i = some owner') (hcount : owner'.count = 1) : s.requestQueue n k i = some
      { (s.atNode o (Node.tell ⟨.GETX, .l1Cache i, .zero⟩)).atNode i Node.taken with
        dir := ⟨.M, owner', none⟩ } := by
  simp [hreq, hdir, hadd, forward_l1Cache hn hk hon ho, Function.update_of_ne hne, hcount]

section

variable (hreq : (s.nodes i).requests = [⟨.PUTX, .l1Cache i, w⟩])

include hreq

/-- A writeback is the owner's or that of a former owner. -/
theorem requestQueue_PUTX {o : Option Nat} (hn : n ≤ 32) (hk : k ≤ 32) (hi : i < n)
    (ho : OwnerIs n k s.dir.owner o) :
    s.requestQueue n k i = s.doTransition n k (.request i) (if o = some i then .PUTX else .PUTX_NotOwner) := by
  unfold requestQueue
  rw [peekRequest, hreq]
  show ((s.dir.owner.isElement 0 i).bind _) = _
  rw [ho.isElement hn hk hi]
  show s.doTransition n k _ (if decide (o = some i) = true then _ else _) = _
  congr 1
  by_cases howns : o = some i
  · rw [if_pos (decide_eq_true howns), if_pos howns]
  · rw [if_neg (by simpa using howns), if_neg howns]

/-- The owner's writeback is stored. -/
theorem request_M_PUTX (hdir : s.dir = ⟨.M, owner, none⟩) :
    s.doTransition n k (.request i) .PUTX = some { s.atNode i Node.taken with
      dir := ⟨.MI, owner.clear, some ⟨.MI, 0, w, 0, none⟩⟩,
      toMemory := s.toMemory ++ [.write (.l1Cache i) (w.getData 0 B)] } := by
  simp [hreq, hdir]

/-- A former owner is told that its writeback is not needed. -/
theorem request_PUTX_NotOwner (hn : n ≤ 32) (hk : k ≤ 32) (hi : i < n)
    (hdir : s.dir = ⟨.I, owner, none⟩ ∧ owner.count = 0 ∨ s.dir = ⟨.M, owner, none⟩ ∧ owner.count = 1) :
    s.doTransition n k (.request i) .PUTX_NotOwner =
      some (s.atNode i fun c => (c.tell ⟨.WB_NACK, .l1Cache i, .zero⟩).taken) := by
  obtain ⟨nd, hnd, hone⟩ := destination_l1Cache hn hk hi
  rcases hdir with ⟨hdir, hcount⟩ | ⟨hdir, hcount⟩
  · simp [hreq, hdir, hnd, forward_l1Cache hn hk hi hone, hcount]
  · simp [hreq, hdir, hnd, forward_l1Cache hn hk hi hone, hcount]

/-- The writeback answers the DMA read that waits for it. -/
theorem request_M_DRD_PUTX (hn : n ≤ 32) (hk : k ≤ 32) (hd : d < k)
    (hdir : s.dir = ⟨.M_DRD, owner, some ⟨.M_DRD, offset, l, len, some (.dma d)⟩⟩) :
    s.doTransition n k (.request i) .PUTX = some { (s.atNode i Node.taken).atDma d (DmaNode.answer (.DATA w)) with
        dir := ⟨.M_DRDI, owner.clear, some ⟨.M_DRDI, offset, l, len, some (.dma d)⟩⟩,
        toMemory := s.toMemory ++ [.write (.l1Cache i) (w.getData 0 B)] } := by
  simp [hreq, hdir, dmaRespond_dma hn hk hd]

/-- **The writeback is dropped**; the buffer of the DMA write is stored in its place. -/
theorem request_M_DWR_PUTX {id : Option MachineID} (hlen : len ≤ B)
    (hdir : s.dir = ⟨.M_DWR, owner, some ⟨.M_DWR, offset, l, len, id⟩⟩) :
    s.doTransition n k (.request i) .PUTX = some { s.atNode i Node.taken with
      dir := ⟨.M_DWRI, owner.clear, some ⟨.M_DWRI, offset, l, len, id⟩⟩,
      toMemory := s.toMemory ++ [.write (.l1Cache i) (l.getData 0 len)] } := by
  simp [hreq, hdir, partialData, hlen]

end

/-! ## Requests of DMA controllers -/

theorem dma_I_READ (hw : r.write = false) (hreq : (s.dmas d).requests = [r.msg d])
    (hdir : s.dir = ⟨.I, owner, none⟩) : s.dmaRequestQueue n k d = some { s.atDma d DmaNode.taken with
      dir := ⟨.ID, owner, some ⟨.ID, 0, .zero, 0, some (.dma d)⟩⟩,
      toMemory := s.toMemory ++ [.read (.dma d)] } := by
  simp [hreq, hdir, DmaRequest.msg, hw]

theorem dma_I_WRITE (hw : r.write = true) (hlen : r.data.length ≤ B)
    (hreq : (s.dmas d).requests = [r.msg d]) (hdir : s.dir = ⟨.I, owner, none⟩) :
    s.dmaRequestQueue n k d = some { s.atDma d DmaNode.taken with
      dir := ⟨.ID_W, owner, some ⟨.ID_W, r.offset, r.line, r.data.length, some (.dma d)⟩⟩,
      toMemory := s.toMemory ++ [.write (.dma d) ((r.line : Line B).getData 0 r.data.length)] } := by
  simp [hreq, hdir, DmaRequest.msg, hw, hlen, partialData]

section

variable (hn : n ≤ 32) (hk : k ≤ 32)

include hn hk

/-- A cache owns the block: it is told to give it back. -/
theorem dma_M (hreq : (s.dmas d).requests = [r.msg d]) (hdir : s.dir = ⟨.M, owner, none⟩)
    (ho : OwnerIs n k owner (some o)) (hon : o < n) (hst : st = if r.write then .M_DWR else .M_DRD) :
    s.dmaRequestQueue n k d = some { (s.atDma d DmaNode.taken).atNode o (Node.tell ⟨.INV, .directory, .zero⟩) with
        dir := ⟨st, owner, some ⟨st, r.offset, r.line, r.data.length, some (.dma d)⟩⟩ } := by
  subst hst
  cases hw : r.write with
  | true | false =>
    simp [hreq, hdir, DmaRequest.msg, hw, forward_l1Cache hn hk hon ho]

/-! ## Answers of the memory -/

/-- The line goes to the new owner. -/
theorem mem_IM_Data (hon : o < n) (hmem : s.fromMemory = [⟨.MEMORY_READ, .l1Cache o, w⟩])
    (hdir : s.dir = ⟨.IM, owner, none⟩) (hcount : owner.count = 1) : s.memQueue n k = some
      { s.atNode o (fun c => { c with responses := c.responses ++ [⟨.DATA, .directory, w⟩] }) with
        dir := ⟨.M, owner, none⟩, fromMemory := [] } := by
  simp [hmem, hdir, respond_l1Cache hn hk hon, hcount]

/-- The writeback is stored and the cache acked. -/
theorem mem_writeback_Ack (hi : i < n) {tbe : DirTBE B}
    (hmem : s.fromMemory = [⟨.MEMORY_WB, .l1Cache i, w⟩]) (hdir : s.dir = ⟨st, owner, some tbe⟩)
    (hst : st = .MI ∨ st = .M_DRDI) (htbe : tbe.state = st) (hcount : owner.count = 0) : s.memQueue n k = some
      { s.atNode i (Node.tell ⟨.WB_ACK, .l1Cache i, .zero⟩) with
        dir := ⟨.I, owner, none⟩, fromMemory := [] } := by
  obtain ⟨nd, hnd, hone⟩ := destination_l1Cache hn hk hi
  rcases hst with rfl | rfl
  · simp [hmem, hdir, htbe, hnd, forward_l1Cache hn hk hi hone, hcount]
  · simp [hmem, hdir, htbe, hnd, forward_l1Cache hn hk hi hone, hcount]

/-- The DMA write is stored: the cache and the controller are acked. -/
theorem mem_M_DWRI_Ack (hi : i < n) (hd : d < k) (hmem : s.fromMemory = [⟨.MEMORY_WB, .l1Cache i, w⟩])
    (hdir : s.dir = ⟨.M_DWRI, owner, some ⟨.M_DWRI, offset, l, len, some (.dma d)⟩⟩)
    (hcount : owner.count = 0) {data : List UInt8} (hdata : l.getData offset len = data) : s.memQueue n k = some
      { (s.atNode i (Node.tell ⟨.WB_ACK, .l1Cache i, .zero⟩)).atDma d (DmaNode.answer .ACK) with
        dir := ⟨.I, owner, none⟩, fromMemory := [],
        log := s.log ++ [.dmaWritten d offset data] } := by
  subst hdata
  obtain ⟨nd, hnd, hone⟩ := destination_l1Cache hn hk hi
  simp [hmem, hdir, hnd, forward_l1Cache hn hk hi hone, dmaRespond_dma hn hk hd, hcount]

/-- The line goes to the DMA controller. -/
theorem mem_ID_Data (hd : d < k) {id : MachineID} (hmem : s.fromMemory = [⟨.MEMORY_READ, id, w⟩])
    (hdir : s.dir = ⟨.ID, owner, some ⟨.ID, offset, l, len, some (.dma d)⟩⟩) (hcount : owner.count = 0) :
    s.memQueue n k = some { s.atDma d (DmaNode.answer (.DATA w)) with
      dir := ⟨.I, owner, none⟩, fromMemory := [] } := by
  simp [hmem, hdir, dmaRespond_dma hn hk hd, hcount]

/-- The DMA write to a block that no cache has is acked. -/
theorem mem_ID_W_Ack (hd : d < k) {id : MachineID} (hmem : s.fromMemory = [⟨.MEMORY_WB, id, w⟩])
    (hdir : s.dir = ⟨.ID_W, owner, some ⟨.ID_W, offset, l, len, some (.dma d)⟩⟩)
    (hcount : owner.count = 0) {data : List UInt8} (hdata : l.getData offset len = data) :
    s.memQueue n k = some { s.atDma d (DmaNode.answer .ACK) with
      dir := ⟨.I, owner, none⟩, fromMemory := [],
      log := s.log ++ [.dmaWritten d offset data] } := by
  subst hdata
  simp [hmem, hdir, dmaRespond_dma hn hk hd, hcount]

end

end Sys

end NvpSim.Ruby.Mi
