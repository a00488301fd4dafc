/-
  `CoherentXBar` in atomic mode, without a snoop filter: caches on its slave ports, one memory below.

  `recvAtomic` snoops every port but the source, one after the other, and then performs the request
  at the memory, also if a snooper has answered.  The packet CHANGES on the way: a snooper may mark
  it shared or inhibited and fill in data, and `forwardAtomic` puts the command back after an answer
  so that the remaining snoopers see a request.

  `cacheRecvAtomic` is `Cache::recvAtomic` of one of the caches, where `memSidePort->sendAtomic` is
  the crossbar.  Masters without a cache use the crossbar directly (`src = none`).
-/
import NvpSim.Lib.Run
import NvpSim.Mem.Cache
import Mathlib.Data.List.FinRange

namespace NvpSim.Mem

open NvpSim.Lib Cache

/-- The caches and the memory. -/
structure System (n : Nat) where
  caches : Fin n → Cache
  mem : AbstractMemory

namespace System

variable {n : Nat} (p : CacheParams)

/-- Replace one cache. -/
def setCache (s : System n) (i : Fin n) (c : Cache) : System n :=
  { s with caches := Function.update s.caches i c }

/-! ## The crossbar -/

/-- A request on its way through `forwardAtomic`: the command of a snooper's answer is kept
    apart. -/
structure Forwarded (n : Nat) where
  sys : System n
  pkt : Packet
  snoopResponseCmd : MemCmd

/-- One turn of the loop of `forwardAtomic`: snoop port `j`. -/
def snoopPort (origCmd : MemCmd) (f : Forwarded n) (j : Fin n) : Option (Forwarded n) :=
  (recvAtomicSnoop p (f.sys.caches j) f.pkt).bind fun (c, pkt) =>
    let sys := f.sys.setCache j c
    if pkt.cmd.isResponse = false then some ⟨sys, pkt, f.snoopResponseCmd⟩
    else if pkt.cmd ≠ origCmd ∧ pkt.memInhibitAsserted = true ∧ f.snoopResponseCmd = .invalidCmd then
      some ⟨sys, { pkt with cmd := origCmd }, pkt.cmd⟩
    else none

/-- The ports to snoop: all but the source. -/
def snoopPorts (src : Option (Fin n)) : List (Fin n) :=
  (List.finRange n).filter fun j => some j ≠ src

def forwardAtomic (s : System n) (pkt : Packet) (src : Option (Fin n)) : Option (Forwarded n) :=
  exec (snoopPort p pkt.cmd) ⟨s, pkt, .invalidCmd⟩ (snoopPorts src)

def recvAtomic (s : System n) (pkt : Packet) (src : Option (Fin n)) : Option (System n × Packet) :=
  (forwardAtomic p s pkt src).bind fun f =>
    (f.sys.mem.access f.pkt).bind fun (mem, pkt) =>
      let sys := { f.sys with mem := mem }
      if f.snoopResponseCmd = .invalidCmd then some (sys, pkt)
      else if pkt.cmd.isResponse then none
      else some (sys, { pkt with cmd := f.snoopResponseCmd })

/-! ## A cache on the crossbar -/

/-- Send the writebacks in order. -/
def sendWritebacks (s : System n) (i : Fin n) (writebacks : List Packet) : Option (System n) :=
  exec (fun s wb => (recvAtomic p s wb (some i)).map fun r => r.1) s writebacks

/-- Fill the block with `fillPkt`, satisfy `pkt` from it, and send the writebacks. -/
def fillAndSatisfy (s : System n) (i : Fin n) (fillPkt pkt : Packet) (victim : Option Key) :
    Option (System n × Packet) :=
  (handleFill p (s.caches i) fillPkt victim).bind fun (c, writebacks) =>
    (satisfyCpuSideRequest p pkt (c (pkt.key p.blkSize)) false false).bind fun (blk, pkt) =>
      let s := s.setCache i (Function.update c (pkt.key p.blkSize) blk)
      (sendWritebacks p s i writebacks).map fun s => (s, pkt)

/-- The response to the packet that a miss has sent out. -/
def handleResponse (s : System n) (i : Fin n) (pkt bus : Packet) (victim : Option Key) : Option (System n × Packet) :=
  if pkt.cmd.needsResponse = false then some (s, pkt)
  else if bus.cmd.isResponse = false then none
  else if bus.cmd.isError then some (s, { pkt.makeResponse with cmd := bus.cmd })
  else if pkt.cmd.isWriteInvalidate then
    -- note the use of `pkt`, not `bus` here
    if p.isTopLevel then fillAndSatisfy p s i pkt pkt victim
    else if (s.caches i (pkt.key p.blkSize)).isValid then
      (satisfyCpuSideRequest p pkt (s.caches i (pkt.key p.blkSize)) false false).map fun (blk, pkt) =>
          (s.setCache i (Function.update (s.caches i) (pkt.key p.blkSize) blk), pkt)
    else some (s, pkt)
  else if bus.cmd.isRead ∨ bus.cmd = .upgradeResp then fillAndSatisfy p s i bus pkt victim
  else some (s, pkt.makeResponse)

/-- The miss path: send a packet of our own, or forward the one we got. -/
def handleMiss (s : System n) (i : Fin n) (pkt : Packet) (victim : Option Key) : Option (System n × Packet) :=
  (getBusPacket p pkt (s.caches i (pkt.key p.blkSize))).bind fun bus =>
    match bus with
    | none => recvAtomic p s pkt (some i)
    | some bus =>
      (recvAtomic p s bus (some i)).bind fun (s, bus) => handleResponse p s i pkt bus victim

/-- A packet that a cache above answers: only the invalidation is passed on. -/
def passInhibited (s : System n) (i : Fin n) (pkt : Packet) : Option (System n × Packet) :=
  if pkt.cmd.isInvalidate then
    let c := s.caches i
    let key := pkt.key p.blkSize
    let c := if (c key).isValid then Function.update c key (c key).invalidate else c
    recvAtomic p (s.setCache i c) pkt (some i)
  else some (s, pkt)

/-- `Cache::recvAtomic(pkt)` of cache `i`. -/
def cacheRecvAtomic (s : System n) (i : Fin n) (pkt : Packet) (victim : Option Key) : Option (System n × Packet) :=
  (promoteWholeLineWrites p pkt).bind fun pkt =>
    if pkt.memInhibitAsserted then passInhibited p s i pkt
    else
      (access p (s.caches i) pkt victim).bind fun acc =>
        -- writebacks resulting from the access precede anything happening below
        (sendWritebacks p (s.setCache i acc.cache) i acc.writebacks).bind fun s =>
          (if acc.satisfied then some (s, acc.pkt) else handleMiss p s i acc.pkt victim).map
            fun (s, pkt) => (s, if pkt.cmd.needsResponse then pkt.makeResponse else pkt)

end System

end NvpSim.Mem
