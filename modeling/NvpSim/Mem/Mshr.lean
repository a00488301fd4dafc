/-
  One miss status holding register (`mem/cache/mshr.{hh,cc}`).

  An MSHR holds the requests that wait for one block, its TARGETS.  Those in `targets` are answered by the
  response to its request; those in `deferredTargets` make a request of their own afterwards, unless the
  response is good enough for them and `handleFill` moves them up.  Each list carries two flags that summarise
  it, `needsExclusive` and `hasUpgrade`, and the program relies on them instead of looking at the list.

  Left out: the thread number, the statistics, and `downstreamPending` of the MSHRs of the caches above.  A
  packet is what the functions here read and write of it, and `id` stands for the pointer.  A failed `assert`
  is `none`.
-/
import NvpSim.Mem.Packet
import NvpSim.Sim.Event

namespace NvpSim.Mem

open NvpSim.Sim

/-! ## Packets and targets -/

/-- The packet of a target, or a snoop. -/
structure MissPacket where
  id : Nat
  cmd : MemCmd
  isUncacheable : Bool
  isSecure : Bool
  isExpressSnoop : Bool
  sharedAsserted : Bool
  memInhibitAsserted : Bool
  isSupplyExclusive : Bool
  deriving DecidableEq, Repr

inductive Source where
  | fromCPU
  | fromSnoop
  | fromPrefetcher
  deriving DecidableEq, Repr

structure Target where
  readyTime : Tick
  order : Nat
  pkt : MissPacket
  source : Source
  markedPending : Bool
  deriving DecidableEq, Repr

/-- The target waits for the block, it is not a snoop that was saved. -/
def Target.waits (t : Target) : Bool := t.source ≠ .fromSnoop

structure TargetList where
  list : List Target
  needsExclusive : Bool
  hasUpgrade : Bool
  deriving DecidableEq, Repr

/-- The commands that count as an upgrade; a StoreCondReq is one if it is in an MSHR. -/
def MemCmd.isUpgradeTarget (cmd : MemCmd) : Bool := cmd.isUpgrade || cmd = .storeCondReq

/-- The command that `replaceUpgrade` puts in the place of another. -/
def MemCmd.replaced : MemCmd → MemCmd
  | upgradeReq => readExReq
  | scUpgradeReq => scUpgradeFailReq
  | storeCondReq => storeCondFailReq
  | cmd => cmd

def replaceUpgrade (pkt : MissPacket) : MissPacket := { pkt with cmd := pkt.cmd.replaced }

namespace TargetList

/-- `TargetList()`. -/
def new : TargetList := ⟨[], false, false⟩

def resetFlags (l : TargetList) : TargetList := { l with needsExclusive := false, hasUpgrade := false }

def isReset (l : TargetList) : Bool := !l.needsExclusive && !l.hasUpgrade

def add (l : TargetList) (pkt : MissPacket) (readyTime : Tick) (order : Nat) (source : Source)
    (markPending : Bool) : TargetList :=
  let l :=
    if source ≠ .fromSnoop then
      { l with
        needsExclusive := l.needsExclusive || pkt.cmd.needsExclusive
        hasUpgrade := l.hasUpgrade || pkt.cmd.isUpgradeTarget }
    else l
  { l with list := l.list ++ [⟨readyTime, order, pkt, source, markPending⟩] }

def replaceUpgrades (l : TargetList) : TargetList :=
  if l.hasUpgrade then
    { l with
      list := l.list.map fun t => { t with pkt := replaceUpgrade t.pkt }
      hasUpgrade := false }
  else l

end TargetList

/-! ## The register -/

structure Mshr where
  readyTime : Tick
  isUncacheable : Bool
  downstreamPending : Bool
  pendingDirty : Bool
  postInvalidate : Bool
  postDowngrade : Bool
  order : Nat
  blkAddr : Addr
  blkSize : Nat
  isSecure : Bool
  inService : Bool
  isForward : Bool
  targets : TargetList
  deferredTargets : TargetList

namespace Mshr

/-- `MSHR()`. -/
def new : Mshr where
  readyTime := 0
  isUncacheable := false
  downstreamPending := false
  pendingDirty := false
  postInvalidate := false
  postDowngrade := false
  order := 0
  blkAddr := 0
  blkSize := 0
  isSecure := false
  inService := false
  isForward := false
  targets := .new
  deferredTargets := .new

def getNumTargets (m : Mshr) : Nat := m.targets.list.length + m.deferredTargets.list.length

def popTarget (m : Mshr) : Mshr :=
  { m with targets := { m.targets with list := m.targets.list.tail } }

/-- `isForwardNoResponse()`: the only target is a request that no response is expected for. -/
def isForwardNoResponse (m : Mshr) : Bool :=
  m.getNumTargets = 1 && m.targets.list.head?.any fun t =>
    t.source = .fromCPU && !t.pkt.cmd.needsResponse

def allocate (m : Mshr) (blkAddr : Addr) (blkSize : Nat) (target : MissPacket) (whenReady : Tick)
    (order : Nat) : Option Mshr :=
  if m.targets.isReset && m.deferredTargets.isReset then
    let source := if target.cmd = .hardPFReq then .fromPrefetcher else .fromCPU
    some { m with
      blkAddr := blkAddr
      blkSize := blkSize
      isSecure := target.isSecure
      readyTime := whenReady
      order := order
      isForward := false
      isUncacheable := target.isUncacheable
      inService := false
      downstreamPending := false
      targets := m.targets.add target whenReady order source true }
  else none

def clearDownstreamPending (m : Mshr) : Option Mshr :=
  if m.downstreamPending then some { m with downstreamPending := false } else none

/-- `markInService(pending_dirty_resp)`: whether the register is to be deallocated. -/
def markInService (m : Mshr) (pendingDirtyResp : Bool) : Option (Mshr × Bool) :=
  if m.inService then none
  else if m.isForwardNoResponse then
    -- we just forwarded the request packet and don't expect a response, so get rid of it
    some (m.popTarget, true)
  else
    some ({ m with
      inService := true
      pendingDirty := m.targets.needsExclusive || pendingDirtyResp
      postInvalidate := false
      postDowngrade := false }, false)

def deallocate (m : Mshr) : Option Mshr :=
  if m.targets.list.isEmpty && m.deferredTargets.isReset then
    some { m with targets := m.targets.resetFlags, inService := false }
  else none

/-- The new target has to wait for the response. -/
def defers (m : Mshr) (pkt : MissPacket) : Bool :=
  m.inService && (!m.deferredTargets.list.isEmpty || m.postInvalidate ||
      (pkt.cmd.needsExclusive && (!m.pendingDirty || m.postDowngrade || m.isForward)))

def allocateTarget (m : Mshr) (pkt : MissPacket) (whenReady : Tick) (order : Nat) : Option Mshr :=
  if pkt.cmd = .hardPFReq ∨ m.isUncacheable then none
  else if m.defers pkt then
    let pkt := if m.postInvalidate then replaceUpgrade pkt else pkt
    some { m with deferredTargets := m.deferredTargets.add pkt whenReady order .fromCPU true }
  else
    some { m with targets := m.targets.add pkt whenReady order .fromCPU (!m.inService) }

/-- The copy of a snoop that is saved: its flags are clear. -/
def copyOf (pkt : MissPacket) : MissPacket :=
  { pkt with
    isExpressSnoop := false
    sharedAsserted := false
    memInhibitAsserted := false
    isSupplyExclusive := false }

/-- The snoop logically precedes the request of the register. -/
def precedes (m : Mshr) (pkt : MissPacket) : Bool :=
  !m.inService || (pkt.isExpressSnoop && m.downstreamPending)

/-- The part of `handleSnoop` that saves the snoop, and what it marks on the packet. -/
def saveSnoop (m : Mshr) (curTick : Tick) (pkt : MissPacket) (order : Nat) : Mshr × MissPacket :=
  if m.pendingDirty || pkt.cmd.isInvalidate then
    let m' := { m with
      targets := m.targets.add (copyOf pkt) curTick order .fromSnoop (m.downstreamPending && m.targets.needsExclusive)
      postInvalidate := m.postInvalidate || pkt.cmd.needsExclusive }
    (m', if m.pendingDirty then { pkt with memInhibitAsserted := true, isSupplyExclusive := true }
      else pkt)
  else (m, pkt)

/-- The snoop precedes the re-request for the deferred targets. -/
def replaceDeferred (m : Mshr) (pkt : MissPacket) : Mshr :=
  if pkt.cmd.needsExclusive then
    { m with deferredTargets := m.deferredTargets.replaceUpgrades }
  else m

/-- The part of `handleSnoop` for a snoop that the request of the register precedes. -/
def snoopAfter (m : Mshr) (curTick : Tick) (pkt : MissPacket) (order : Nat) : Mshr × MissPacket :=
  if m.postInvalidate then (m, pkt)
  else
    let r := m.saveSnoop curTick pkt order
    if !pkt.cmd.needsExclusive && !pkt.isUncacheable then
      -- this transaction will get a read-shared copy, downgrading our copy
      ({ r.1 with postDowngrade := true }, { r.2 with sharedAsserted := true })
    else r

/-- `handleSnoop(pkt, _order)`: the register, the packet, and whether the snoop was handled here. -/
def handleSnoop (m : Mshr) (curTick : Tick) (pkt : MissPacket) (order : Nat) : Mshr × MissPacket × Bool :=
  if m.precedes pkt then
    if pkt.cmd.needsExclusive then
      ({ m with
        targets := m.targets.replaceUpgrades
        deferredTargets := m.deferredTargets.replaceUpgrades }, pkt, false)
    else (m, pkt, false)
  else
    let r := (m.replaceDeferred pkt).snoopAfter curTick pkt order
    (r.1, r.2, true)

/-- `promoteDeferredTargets()`: whether there were any. -/
def promoteDeferredTargets (m : Mshr) (curTick : Tick) : Option (Mshr × Bool) :=
  if m.targets.list.isEmpty then
    match m.deferredTargets.list with
    | [] => some (m, false)
    | t :: _ => some ({ m with
        targets := m.deferredTargets
        deferredTargets := { m.targets with needsExclusive := false, hasUpgrade := false }
        order := t.order
        readyTime := max curTick t.readyTime }, true)
  else none

/-- The deferred targets are moved up by an exclusive response. -/
def movesUp (m : Mshr) : Bool :=
  !(m.postInvalidate || m.postDowngrade) && m.deferredTargets.needsExclusive

/-- `handleFill(pkt, blk)`, of a packet that is marked as shared or not. -/
def handleFill (m : Mshr) (sharedAsserted : Bool) : Option Mshr :=
  if sharedAsserted then some m
  else if !m.inService then none
  else if m.movesUp then
    if m.targets.needsExclusive || m.downstreamPending then none
    else some { m with
      targets := { m.targets with
        list := m.targets.list ++ m.deferredTargets.list
        needsExclusive := true }
      deferredTargets := .new }
  else some m

end Mshr

end NvpSim.Mem
