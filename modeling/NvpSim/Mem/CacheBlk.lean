/-
  `CacheBlk`: the status bits, the bytes and the load-linked locks of one cache block.

  The status word is a record of its bits; `print()` of the source reads them as M, O, E, S and I.
  A block is found by the address of its line and the security attribute, so that pair is its `Key`.
-/
import NvpSim.Mem.AbstractMem

namespace NvpSim.Mem

open NvpSim.Lib

structure Lock where
  contextId : Int
  lowAddr : Addr
  highAddr : Addr
  deriving DecidableEq, Repr

namespace Lock

/-- `Lock(req)`. -/
def ofRequest (req : Request) : Lock := ⟨req.contextId, req.paddr, req.paddr + req.size - 1⟩

/-- `matchesContext(req)`: the same context, and the request lies in the range of the lock. -/
def matchesContext (l : Lock) (req : Request) : Bool :=
  l.contextId = req.contextId && l.lowAddr ≤ req.paddr && req.paddr + req.size - 1 ≤ l.highAddr

def overlapping (l : Lock) (req : Request) : Bool :=
  req.paddr ≤ l.highAddr && l.lowAddr ≤ req.paddr + req.size - 1

end Lock

/-- `CacheBlk`: `BlkValid`, `BlkWritable`, `BlkReadable`, `BlkDirty`, the data and the locks. -/
structure CacheBlk where
  valid : Bool
  writable : Bool
  readable : Bool
  dirty : Bool
  data : Buffer Byte
  lockList : List Lock

namespace CacheBlk

def isValid (b : CacheBlk) : Bool := b.valid

def isWritable (b : CacheBlk) : Bool := b.writable && b.valid

def isReadable (b : CacheBlk) : Bool := b.readable && b.valid

def isDirty (b : CacheBlk) : Bool := b.dirty

/-- `invalidate()`: all state goes. -/
def invalidate (b : CacheBlk) : CacheBlk := ⟨false, false, false, false, b.data, []⟩

def trackLoadLocked (b : CacheBlk) (pkt : Packet) : CacheBlk :=
  { b with lockList := Lock.ofRequest pkt.req :: b.lockList }

/-- `clearLoadLocks(req)`: the locks that overlap with the request go. -/
def clearLoadLocks (b : CacheBlk) (req : Request) : CacheBlk :=
  { b with lockList := b.lockList.filter (fun l => !l.overlapping req) }

/-- `checkWrite(pkt)`: false only for a store-conditional without a matching lock. -/
def checkWrite (b : CacheBlk) (pkt : Packet) : CacheBlk × Packet × Bool :=
  let success := if pkt.cmd.isLLSC then b.lockList.any (fun l => l.matchesContext pkt.req) else true
  (b.clearLoadLocks pkt.req, pkt.setStoreResult success, success)

/-- `writeDataToBlock(data, blkSize)`. -/
def writeData (b : CacheBlk) (offset : Nat) (pkt : Packet) : CacheBlk :=
  { b with data := memcpy b.data offset pkt.data 0 pkt.size }

end CacheBlk

/-- The address of a line, and whether it is of the secure memory space. -/
abbrev Key := Addr × Bool

def blockAlign (blkSize : Nat) (addr : Addr) : Addr := addr - addr % blkSize

namespace Packet

def getOffset (pkt : Packet) (blkSize : Nat) : Nat := pkt.addr % blkSize

/-- The block a packet is about: that of its first byte. -/
def key (pkt : Packet) (blkSize : Nat) : Key := (blockAlign blkSize pkt.addr, pkt.isSecure)

def assertShared (pkt : Packet) : Packet := { pkt with sharedAsserted := true }

/-- `assertMemInhibit()`: only once, and only on a request. -/
def assertMemInhibit (pkt : Packet) : Option Packet :=
  if pkt.cmd.isRequest ∧ pkt.memInhibitAsserted = false then
    some { pkt with memInhibitAsserted := true }
  else none

/-- `Packet(req, cmd, blkSize)`: a packet for the whole block around the address of a request. -/
def ofBlock (req : Request) (cmd : MemCmd) (blkSize : Nat) : Packet where
  cmd := cmd
  req := req
  addr := blockAlign blkSize req.paddr
  isSecure := req.isSecure
  size := blkSize
  data := fun _ => 0
  sharedAsserted := false
  memInhibitAsserted := false
  isSupplyExclusive := false

end Packet

end NvpSim.Mem
