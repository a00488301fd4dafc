/-
  `Cache` in atomic mode: the functions of `mem/cache/cache_impl.hh`.

  The tag store is a map from keys to blocks, an invalid block standing for an absent one.  Which block
  `findVictim` picks is up to the replacement policy, so the victim is an ARGUMENT: `none` if a free frame was
  found, or the key of a valid block.

  In atomic mode nothing is outstanding, so `allocateBlock` never finds an MSHR and the temporary block is not
  used.  `none` is a failed assertion or a panic.
-/
import NvpSim.Mem.CacheBlk

namespace NvpSim.Mem

open NvpSim.Lib

/-- The parameters of `BaseCache` that the functions read. -/
structure CacheParams where
  blkSize : Nat
  isTopLevel : Bool
  deriving DecidableEq, Repr

/-- The tag store: blocks by key. -/
abbrev Cache := Key → CacheBlk

namespace Cache

variable (p : CacheParams)

/-- An empty cache. -/
def empty : Cache := fun _ => ⟨false, false, false, false, fun _ => 0, []⟩

/-! ## Requests from the CPU side -/

def cmpAndSwap (blk : CacheBlk) (pkt : Packet) : Option (CacheBlk × Packet) :=
  let offset := pkt.getOffset p.blkSize
  if pkt.cmd.isRequest ∧ pkt.size ≤ 8 then
    (pkt.swapOverwrites blk.data offset).map fun overwrite =>
      (if overwrite then { blk.writeData offset pkt with dirty := true } else blk, pkt.setData blk.data offset)
  else none

/-- The answer to a read of a whole block, which may come from a cache above: what exclusivity and
    ownership the requester gets. -/
def satisfyBlockRead (pkt : Packet) (blk : CacheBlk) (deferredResponse pendingDowngrade : Bool) :
    Option (CacheBlk × Packet) :=
  if pkt.cmd.needsExclusive then
    -- we give up our copy unconditionally; the recipient keeps it dirty
    if blk.isDirty then pkt.assertMemInhibit.map fun pkt => (blk.invalidate, pkt)
    else some (blk.invalidate, pkt)
  else if blk.isWritable && !pendingDowngrade && !pkt.sharedAsserted && !pkt.req.isInstFetch then
    if blk.isDirty then
      if !deferredResponse && !p.isTopLevel then
        pkt.assertMemInhibit.map fun pkt => ({ blk with dirty := false }, pkt)
      else some (blk, pkt.assertShared)
    else some (blk, pkt)
  else some (blk, pkt.assertShared)

def satisfyCpuSideRequest (pkt : Packet) (blk : CacheBlk)
    (deferredResponse pendingDowngrade : Bool) : Option (CacheBlk × Packet) :=
  let offset := pkt.getOffset p.blkSize
  if pkt.cmd.isRequest ∧ blk.isValid ∧ offset + pkt.size ≤ p.blkSize then
    if pkt.cmd = .swapReq then cmpAndSwap p blk pkt
    else if pkt.cmd.isWrite && (!pkt.cmd.isWriteInvalidate || p.isTopLevel) then
      if blk.isWritable then
        let (blk, pkt, ok) := blk.checkWrite pkt
        let blk := if ok then blk.writeData offset pkt else blk
        -- dirty even if we are a failed store-conditional
        some ({ blk with dirty := true }, pkt)
      else none
    else if pkt.cmd.isRead then
      let blk := if pkt.cmd.isLLSC then blk.trackLoadLocked pkt else blk
      let pkt := pkt.setData blk.data offset
      if pkt.size = p.blkSize then satisfyBlockRead p pkt blk deferredResponse pendingDowngrade
      else some (blk, pkt)
    else if pkt.cmd.isUpgrade || (pkt.cmd.isWriteInvalidate && !p.isTopLevel) then
      some (blk.invalidate, pkt)
    else none
  else none

def promoteWholeLineWrites (pkt : Packet) : Option Packet :=
  if pkt.cmd = .writeReq ∧ pkt.size = p.blkSize ∧ pkt.getOffset p.blkSize = 0 then
    if p.isTopLevel then some { pkt with cmd := .writeInvalidateReq } else none
  else some pkt

/-- `writebackBlk(blk)` for the block at a key: the packet. -/
def writebackBlk (key : Key) (blk : CacheBlk) : Packet where
  cmd := .writeback
  req := ⟨key.1, p.blkSize, 0, 0, false, false, false, key.2, false⟩
  addr := key.1
  isSecure := key.2
  size := p.blkSize
  data := memcpy (fun _ => 0) 0 blk.data 0 p.blkSize
  sharedAsserted := false
  memInhibitAsserted := false
  isSupplyExclusive := blk.isWritable

/-- `allocateBlock(addr, is_secure, writebacks)` and the invalidation of the victim in
    `insertBlock`: the cache without the victim, and its writeback if it was dirty. -/
def allocateBlock (c : Cache) (victim : Option Key) : Option (Cache × List Packet) :=
  match victim with
  | none => some (c, [])
  | some v =>
    if (c v).isValid then
      some (Function.update c v (c v).invalidate,
        if (c v).isDirty then [writebackBlk p v (c v)] else [])
    else none

/-- What `access` returns: the cache, the packet, whether it is satisfied, and the writebacks. -/
structure Accessed where
  cache : Cache
  pkt : Packet
  satisfied : Bool
  writebacks : List Packet

/-- The uncacheable branch of `access`: flush and invalidate any existing block. -/
def accessUncacheable (c : Cache) (pkt : Packet) : Accessed :=
  let key := pkt.key p.blkSize
  let c : Cache := if pkt.req.isClearLL then fun k => { c k with lockList := [] } else c
  if (c key).isValid then
    ⟨Function.update c key (c key).invalidate, pkt, false,
      if (c key).isDirty then [writebackBlk p key (c key)] else []⟩
  else ⟨c, pkt, false, []⟩

/-- The writeback branch of `access`: the block is written without a writable copy, or any. -/
def accessWriteback (c : Cache) (pkt : Packet) (victim : Option Key) : Option Accessed :=
  let key := pkt.key p.blkSize
  let store (c : Cache) (blk : CacheBlk) (wbs : List Packet) : Accessed :=
    ⟨Function.update c key { blk with
      dirty := true, writable := blk.writable || pkt.isSupplyExclusive,
      data := memcpy blk.data 0 pkt.data 0 p.blkSize }, pkt, true, wbs⟩
  if p.blkSize = pkt.size then
    if (c key).isValid then some (store c (c key) [])
    else (allocateBlock p c victim).map fun (c, wbs) =>
      store c { (c key).invalidate with valid := true, readable := true } wbs
  else none

def access (c : Cache) (pkt : Packet) (victim : Option Key) : Option Accessed :=
  let key := pkt.key p.blkSize
  if pkt.cmd.isRequest then
    if pkt.req.isUncacheable then some (accessUncacheable p c pkt)
    else if pkt.cmd = .writeback then accessWriteback p c pkt victim
    else if (c key).isValid && (if pkt.cmd.needsExclusive then (c key).isWritable else (c key).isReadable) then
      (satisfyCpuSideRequest p pkt (c key) false false).map fun (blk, pkt) =>
        ⟨Function.update c key blk, pkt, true, []⟩
    else if !(c key).isValid && pkt.cmd.isLLSC && pkt.cmd.isWrite then
      -- complete miss on store conditional: just give up now
      some ⟨c, { pkt with req := pkt.req.setExtraData 0 }, true, []⟩
    else some ⟨c, pkt, false, []⟩
  else none

/-- The command of the packet that `getBusPacket` makes for a block, valid or not. -/
def busCmd (pkt : Packet) (blkValid : Bool) : MemCmd :=
  if blkValid then if pkt.cmd.isLLSC then .scUpgradeReq else .upgradeReq
  else if pkt.cmd = .scUpgradeFailReq ∨ pkt.cmd = .storeCondFailReq then .scUpgradeFailReq
  else if pkt.cmd.isWriteInvalidate then pkt.cmd
  else if pkt.cmd.needsExclusive then .readExReq
  else .readReq

/-- `getBusPacket(cpu_pkt, blk, needsExclusive)`: `some none` means that the packet itself is
    forwarded. -/
def getBusPacket (pkt : Packet) (blk : CacheBlk) : Option (Option Packet) :=
  if pkt.req.isUncacheable then some none
  else if blk.isValid = false ∧ (pkt.cmd = .writeback ∨ pkt.cmd.isUpgrade = true) then some none
  else if pkt.cmd.needsResponse = false then none
  -- only reason to be here with a valid block is that it is shared and we need it exclusive
  else if blk.isValid = true ∧ (pkt.cmd.needsExclusive = false ∨ blk.isWritable = true) then none
  else
    let bus := Packet.ofBlock pkt.req (busCmd pkt blk.isValid) p.blkSize
    some (some (if pkt.sharedAsserted then bus.assertShared else bus))

/-- What `handleFill` does to the block: new rights, and new bytes if the packet has read some. -/
def fillBlk (pkt : Packet) (blk : CacheBlk) : CacheBlk :=
  let blk := { blk with valid := true, readable := true }
  let blk :=
    if pkt.sharedAsserted then blk
    -- an owner gave up its copy for us: we need to write it back
    else { blk with writable := true, dirty := blk.dirty || pkt.memInhibitAsserted }
  if pkt.cmd.isRead then { blk with data := memcpy blk.data 0 pkt.data 0 p.blkSize } else blk

/-- `handleFill(pkt, blk, writebacks)`: an existing block keeps its status, a new one starts from
    none. -/
def handleFill (c : Cache) (pkt : Packet) (victim : Option Key) : Option (Cache × List Packet) :=
  let key := pkt.key p.blkSize
  if (pkt.cmd.isResponse ∨ pkt.cmd.isWriteInvalidate) ∧ (pkt.cmd.isRead → pkt.cmd.hasData ∧ pkt.size = p.blkSize) then
    if (c key).isValid then some (Function.update c key (fillBlk p pkt (c key)), [])
    else if pkt.cmd.hasData ∧ (pkt.cmd.isRead ∨ pkt.cmd.isWriteInvalidate) then
      (allocateBlock p c victim).map fun (c, wbs) =>
        (Function.update c key (fillBlk p pkt (c key).invalidate), wbs)
    else none
  else none

/-! ## Snoops from the memory side -/

/-- The answer of a dirty block to a snoop: inhibit the memory and supply the data. -/
def supply (pkt : Packet) (blk : CacheBlk) : Option Packet :=
  pkt.assertMemInhibit.map fun pkt =>
    let pkt := if blk.isWritable then { pkt with isSupplyExclusive := true } else pkt
    pkt.makeResponse.setData blk.data (pkt.getOffset p.blkSize)

def handleSnoop (c : Cache) (pkt : Packet) : Option (Cache × Packet) :=
  let key := pkt.key p.blkSize
  let blk := c key
  let invalidate := pkt.cmd.isInvalidate
  if pkt.cmd.isRequest = false then none
  else if blk.isValid = false then some (c, pkt)
  else
    -- dirty data found while snooping for a write-invalidate is dropped
    let respond := blk.isDirty && pkt.cmd.needsResponse && !pkt.cmd.isWriteInvalidate
    if pkt.cmd = .hardPFReq then some (c, pkt)
    else
      let share := !pkt.req.isUncacheable && pkt.cmd.isRead && !invalidate
      if share ∧ pkt.cmd.needsExclusive then none
      else
        let pkt' := if share then pkt.assertShared else pkt
        let blk' := if share then { blk with writable := false } else blk
        let blk' := if invalidate then blk'.invalidate else blk'
        -- the answer looks at the exclusivity we had
        (if respond then supply p pkt' blk else some pkt').map fun pkt' =>
          (Function.update c key blk', pkt')

/-- `recvAtomicSnoop(pkt)`: no need to snoop writebacks. -/
def recvAtomicSnoop (c : Cache) (pkt : Packet) : Option (Cache × Packet) :=
  if pkt.cmd = .writeback then some (c, pkt) else handleSnoop p c pkt

end Cache

end NvpSim.Mem
