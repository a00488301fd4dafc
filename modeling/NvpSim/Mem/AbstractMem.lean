/-
  `AbstractMemory`: the memory below the crossbars, with its list of load-linked reservations.

  `access` is translated branch by branch from `mem/abstract_mem.cc`: an inhibited packet is
  ignored; a swap is handled before the test for a read; a read tracks a load-linked; an invalidate
  does NOTHING, also when it is a write; a write asks `writeOK`.  The result is the memory and the
  packet, turned into a response where it needs one; `none` is a failed assertion or a panic.

  Reservations are records of a context and a 16-byte granule, found and erased by the physical
  address of the REQUEST.
-/
import NvpSim.Mem.Packet

namespace NvpSim.Mem

open NvpSim.Lib

/-! ## Reservations -/

structure LockedAddr where
  addr : Addr
  contextId : Int
  deriving DecidableEq, Repr

namespace LockedAddr

def addrMask : Nat := 0xf

/-- `mask(paddr)`: the lower bits are masked off. -/
def mask (paddr : Addr) : Addr := paddr - paddr % (addrMask + 1)

def matchesContext (l : LockedAddr) (req : Request) : Bool := l.contextId = req.contextId

/-- `LockedAddr(req)`. -/
def ofRequest (req : Request) : LockedAddr := ⟨mask req.paddr, req.contextId⟩

end LockedAddr

/-- The loop of `trackLoadLocked`: the record of the request's context, if there is one, gets the
    new address. -/
def relock (req : Request) : List LockedAddr → Option (List LockedAddr)
  | [] => none
  | l :: ls =>
    if l.matchesContext req then some ({ l with addr := LockedAddr.mask req.paddr } :: ls)
    else (relock req ls).map (l :: ·)

/-- A conditional store reports its outcome in the extra data of its request. -/
def Packet.setStoreResult (pkt : Packet) (ok : Bool) : Packet :=
  if pkt.cmd.isLLSC then { pkt with req := pkt.req.setExtraData (if ok then 1 else 0) } else pkt

/-! ## The memory -/

/-- The members of `AbstractMemory` that `access` reads and writes; bytes are indexed by their
    address. -/
structure AbstractMemory where
  start : Addr
  finish : Addr
  isNull : Bool
  bytes : Buffer Byte
  lockedAddrList : List LockedAddr

namespace AbstractMemory

def trackLoadLocked (m : AbstractMemory) (pkt : Packet) : AbstractMemory :=
  match relock pkt.req m.lockedAddrList with
  | some ls => { m with lockedAddrList := ls }
  | none => { m with lockedAddrList := LockedAddr.ofRequest pkt.req :: m.lockedAddrList }

/-- The search of `checkLockedAddrList`: a conditional store needs a record of its context and
    granule, any other store succeeds. -/
def allowStore (m : AbstractMemory) (pkt : Packet) : Bool :=
  if pkt.cmd.isLLSC then
    m.lockedAddrList.any (fun l => l.addr = LockedAddr.mask pkt.req.paddr && l.matchesContext pkt.req)
  else true

/-- The erasing loop of `checkLockedAddrList`: all records of a granule go. -/
def eraseLocks (m : AbstractMemory) (paddr : Addr) : AbstractMemory :=
  { m with lockedAddrList := m.lockedAddrList.filter (fun l => l.addr ≠ paddr) }

def checkLockedAddrList (m : AbstractMemory) (pkt : Packet) : AbstractMemory × Packet × Bool :=
  let allowStore := m.allowStore pkt
  (if allowStore then m.eraseLocks (LockedAddr.mask pkt.req.paddr) else m, pkt.setStoreResult allowStore, allowStore)

def writeOK (m : AbstractMemory) (pkt : Packet) : AbstractMemory × Packet × Bool :=
  if m.lockedAddrList.isEmpty then
    -- no locked addresses: nothing to check, a store conditional fails
    (m, pkt.setStoreResult false, !pkt.cmd.isLLSC)
  else m.checkLockedAddrList pkt

/-- `memcpy(hostAddr, data, size)`. -/
def store (m : AbstractMemory) (pkt : Packet) : AbstractMemory :=
  { m with bytes := memcpy m.bytes pkt.addr pkt.data 0 pkt.size }

/-- The swap branch of `access`: the old bytes go into the packet, the packet's bytes into memory
    if the condition holds. -/
def swap (m : AbstractMemory) (pkt : Packet) : Option (AbstractMemory × Packet) :=
  if m.isNull ∨ pkt.req.isInstFetch then none
  else (pkt.swapOverwrites m.bytes pkt.addr).map fun overwrite =>
    (if overwrite then m.store pkt else m, pkt.setData m.bytes pkt.addr)

/-- The read branch. -/
def read (m : AbstractMemory) (pkt : Packet) : Option (AbstractMemory × Packet) :=
  if pkt.cmd.isWrite then none
  else some (if pkt.cmd.isLLSC then m.trackLoadLocked pkt else m,
    if m.isNull then pkt else pkt.setData m.bytes pkt.addr)

/-- The write branch. -/
def write (m : AbstractMemory) (pkt : Packet) : Option (AbstractMemory × Packet) :=
  let (m, pkt, ok) := m.writeOK pkt
  if ok then
    if pkt.req.isInstFetch then none
    else some (if m.isNull then m else m.store pkt, pkt)
  else some (m, pkt)

/-- What `access` does to a packet that is not inhibited. -/
def perform (m : AbstractMemory) (pkt : Packet) : Option (AbstractMemory × Packet) :=
  if pkt.cmd = .swapReq then m.swap pkt
  else if pkt.cmd.isRead then m.read pkt
  -- before the write clause: a write-invalidate does not write to memory
  else if pkt.cmd.isInvalidate then some (m, pkt)
  else if pkt.cmd.isWrite then m.write pkt
  else none

def access (m : AbstractMemory) (pkt : Packet) : Option (AbstractMemory × Packet) :=
  if m.start ≤ pkt.addr ∧ pkt.addr + pkt.size - 1 ≤ m.finish then
    if pkt.memInhibitAsserted then some (m, pkt)
    else (m.perform pkt).map fun (m, pkt) =>
      (m, if pkt.cmd.needsResponse then pkt.makeResponse else pkt)
  else none

/-- Whether `access` stores the bytes of a packet. -/
def stores (m : AbstractMemory) (pkt : Packet) : Bool :=
  if pkt.memInhibitAsserted then false
  else if pkt.cmd = .swapReq then pkt.swapOverwrites m.bytes pkt.addr = some true
  else if pkt.cmd.isRead || pkt.cmd.isInvalidate then false
  else pkt.cmd.isWrite && (m.writeOK pkt).2.2

end AbstractMemory

/-! ## What an access does to the memory -/

namespace AbstractMemory

variable {m m' : AbstractMemory} {pkt pkt' : Packet}

theorem writeOK_eq (m : AbstractMemory) (pkt : Packet) : m.writeOK pkt = m.checkLockedAddrList pkt := by
  unfold writeOK
  split
  · rename_i hempty
    have hnil : m.lockedAddrList = [] := List.isEmpty_iff.mp hempty
    have herase : m.eraseLocks (LockedAddr.mask pkt.req.paddr) = m := by
      obtain ⟨start, finish, isNull, bytes, list⟩ := m
      cases hnil
      rfl
    have hallow : m.allowStore pkt = !pkt.cmd.isLLSC := by
      cases hllsc : pkt.cmd.isLLSC <;> simp [allowStore, hllsc, hnil]
    rw [checkLockedAddrList, hallow, herase]
    cases hllsc : pkt.cmd.isLLSC <;> simp [Packet.setStoreResult, hllsc]
  · rfl

@[simp] theorem setStoreResult_frame (pkt : Packet) (ok : Bool) :
    (pkt.setStoreResult ok).cmd = pkt.cmd ∧ (pkt.setStoreResult ok).addr = pkt.addr ∧
      (pkt.setStoreResult ok).size = pkt.size ∧ (pkt.setStoreResult ok).data = pkt.data := by
  unfold Packet.setStoreResult
  split <;> exact ⟨rfl, rfl, rfl, rfl⟩

theorem write_eq (h : m.write pkt = some (m', pkt')) : pkt' = pkt.setStoreResult (m.allowStore pkt) ∧
      m' = if m.allowStore pkt then
          let m₁ := m.eraseLocks (LockedAddr.mask pkt.req.paddr)
          if m.isNull then m₁ else m₁.store pkt
        else m := by
  unfold write at h
  rw [writeOK_eq, checkLockedAddrList] at h
  cases hallow : m.allowStore pkt with
  | false =>
    simp only [hallow, Bool.false_eq_true, if_false, Option.some.injEq, Prod.mk.injEq] at h
    exact ⟨h.2.symm, h.1.symm⟩
  | true =>
    simp only [hallow, if_true] at h
    split at h
    · cases h
    · simp only [Option.some.injEq, Prod.mk.injEq] at h
      refine ⟨h.2.symm, h.1.symm.trans ?_⟩
      simp [store, eraseLocks]

/-- **A plain store goes through**: its bytes go to memory. -/
theorem access_store (m : AbstractMemory) (pkt : Packet) (hcmd : pkt.cmd = .writeReq ∨ pkt.cmd = .writeback)
    (hrange : m.start ≤ pkt.addr ∧ pkt.addr + pkt.size - 1 ≤ m.finish)
    (hinh : pkt.memInhibitAsserted = false) (hfetch : pkt.req.isInstFetch = false) (hnull : m.isNull = false) :
    ∃ m', m.access pkt = some (m', if pkt.cmd.needsResponse then pkt.makeResponse else pkt) ∧
      m'.bytes = memcpy m.bytes pkt.addr pkt.data 0 pkt.size ∧ m'.start = m.start ∧
      m'.finish = m.finish ∧ m'.isNull = m.isNull := by
  have hllsc : pkt.cmd.isLLSC = false := by rcases hcmd with hc | hc <;> rw [hc] <;> rfl
  have hkind : pkt.cmd ≠ .swapReq ∧ pkt.cmd.isRead = false ∧ pkt.cmd.isInvalidate = false ∧
      pkt.cmd.isWrite = true := by rcases hcmd with hc | hc <;> rw [hc] <;> decide
  have hallow : m.allowStore pkt = true := by simp [allowStore, hllsc]
  have hresult : pkt.setStoreResult true = pkt := by simp [Packet.setStoreResult, hllsc]
  have hwrite : m.write pkt = some ((m.eraseLocks (LockedAddr.mask pkt.req.paddr)).store pkt, pkt) := by
    unfold write
    rw [writeOK_eq]
    simp [checkLockedAddrList, hallow, hresult, hfetch, hnull, eraseLocks]
  refine ⟨(m.eraseLocks (LockedAddr.mask pkt.req.paddr)).store pkt, ?_, rfl, rfl, rfl, rfl⟩
  unfold access perform
  rw [if_pos hrange, hinh, if_neg (by simp), if_neg hkind.1, hkind.2.1, if_neg (by simp),
    hkind.2.2.1, if_neg (by simp), hkind.2.2.2, if_pos rfl, hwrite, Option.map_some]

end AbstractMemory

end NvpSim.Mem
