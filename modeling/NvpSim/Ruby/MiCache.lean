/-
  The L1 cache of the MI_example protocol (`mem/protocol/MI_example-cache.sm`), for one block.

  The controller is a TABLE: for a state and an event, the actions and the next state.  A pair that the table
  does not have is a fatal error, and so is an assertion of an action that fails: `none`.  A transition with
  `z_stall` leaves everything, the message at the head of its queue too.

  A `Node` is the entry in the cache, the entry among the TBEs, the request of the sequencer, and the queues of
  messages.  Actions that only count or report to the processor are left out.  Accesses are loads, instruction
  fetches and stores; when one completes, it is written down (`Done`).
-/
import NvpSim.Ruby.NetDest

namespace NvpSim.Ruby.Mi

/-! ## Lines -/

/-- `DataBlock`: the bytes of a line. -/
abbrev Line (B : Nat) := Fin B → UInt8

variable {B : Nat}

namespace Line

/-- A line that was cleared. -/
def zero : Line B := fun _ => 0

/-- The byte at an offset. -/
def byte (l : Line B) (k : Nat) : UInt8 := if h : k < B then l ⟨k, h⟩ else 0

def getData (l : Line B) (offset len : Nat) : List UInt8 :=
  (List.range len).map fun k => l.byte (offset + k)

def setData (l : Line B) (data : List UInt8) (offset : Nat) : Line B := fun k =>
  if offset ≤ k ∧ k < offset + data.length then data.getD (k - offset) 0 else l k

end Line

/-! ## Messages -/

inductive MachineID where
  | l1Cache (i : Nat)
  | directory
  | dma (d : Nat)
  deriving DecidableEq, Repr

/-- The number of machines of each type. -/
def counts (n k : Nat) : List Nat := [n, 1, k]

/-- The type and the number of a machine. -/
def MachineID.machine : MachineID → Nat × Nat
  | .l1Cache i => (0, i)
  | .directory => (1, 0)
  | .dma d => (2, d)

inductive CoherenceRequestType where
  | GETX | GETS | PUTX | WB_ACK | WB_NACK | INV
  deriving DecidableEq, Repr

inductive CoherenceResponseType where
  | ACK | DATA | DATA_EXCLUSIVE_CLEAN | DATA_EXCLUSIVE_DIRTY | UNBLOCK | UNBLOCK_EXCLUSIVE
  | WRITEBACK_CLEAN | WRITEBACK_DIRTY | WRITEBACK
  deriving DecidableEq, Repr

/-- `RequestMsg`; the address is that of the block. -/
structure RequestMsg (B : Nat) where
  type : CoherenceRequestType
  requestor : MachineID
  dataBlk : Line B
  deriving DecidableEq

structure ResponseMsg (B : Nat) where
  type : CoherenceResponseType
  sender : MachineID
  dataBlk : Line B
  deriving DecidableEq

/-! ## Accesses of the processors -/

/-- A request of the sequencer, with its offset in the line: `LD`, `IFETCH` or `ST`. -/
inductive Access where
  | load (offset size : Nat)
  | ifetch (offset size : Nat)
  | store (offset : Nat) (data : List UInt8)
  deriving DecidableEq, Repr

/-- What has been completed: a read with the bytes that it returned, a store, a DMA write. -/
inductive Done where
  | loaded (i offset : Nat) (data : List UInt8)
  | stored (i offset : Nat) (data : List UInt8)
  | dmaWritten (d offset : Nat) (data : List UInt8)
  deriving DecidableEq, Repr

/-! ## The controller -/

/-- `State`. -/
inductive L1State where
  | I | II | M | MI | MII | IS | IM
  deriving DecidableEq, Repr

/-- `Event`. -/
inductive L1Event where
  | load | ifetch | store | data | fwdGETX | inv | replacement | writebackAck | writebackNack
  deriving DecidableEq, Repr

/-- The actions. -/
inductive L1Action where
  | aIssueRequest | bIssuePUT | eSendData | eeSendDataFromTBE
  | iAllocateL1CacheBlock | hDeallocateL1CacheBlock
  | mPopMandatoryQueue | nPopResponseQueue | oPopForwardedRequestQueue
  | rLoadHit | rxLoadHit | sStoreHit | sxStoreHit
  | uWriteDataToCache | vAllocateTBE | wDeallocateTBE | xCopyDataFromCacheToTBE
  | zStall
  deriving DecidableEq, Repr

/-- The transitions. -/
def l1Transition : L1State → L1Event → Option (List L1Action × L1State)
  | st@(.IS), .load | st@(.IS), .ifetch | st@(.IS), .store | st@(.IS), .replacement
  | st@(.IM), .load | st@(.IM), .ifetch | st@(.IM), .store | st@(.IM), .replacement
  | st@(.MI), .load | st@(.MI), .ifetch | st@(.MI), .store | st@(.MI), .replacement
  | st@(.II), .load | st@(.II), .ifetch | st@(.II), .store | st@(.II), .replacement
  | st@(.MII), .load | st@(.MII), .ifetch | st@(.MII), .store | st@(.MII), .replacement =>
    some ([.zStall], st)
  | st@(.IS), .fwdGETX | st@(.IS), .inv | st@(.IM), .fwdGETX | st@(.IM), .inv => some ([.zStall], st)
  | .MI, .inv => some ([.oPopForwardedRequestQueue], .MI)
  | .M, .store => some ([.sStoreHit, .mPopMandatoryQueue], .M)
  | .M, .load | .M, .ifetch => some ([.rLoadHit, .mPopMandatoryQueue], .M)
  | .I, .inv => some ([.oPopForwardedRequestQueue], .I)
  | .I, .store =>
    some ([.vAllocateTBE, .iAllocateL1CacheBlock, .aIssueRequest, .mPopMandatoryQueue], .IM)
  | .I, .load | .I, .ifetch =>
    some ([.vAllocateTBE, .iAllocateL1CacheBlock, .aIssueRequest, .mPopMandatoryQueue], .IS)
  | .IS, .data => some ([.uWriteDataToCache, .rxLoadHit, .wDeallocateTBE, .nPopResponseQueue], .M)
  | .IM, .data => some ([.uWriteDataToCache, .sxStoreHit, .wDeallocateTBE, .nPopResponseQueue], .M)
  | .M, .fwdGETX => some ([.eSendData, .oPopForwardedRequestQueue], .I)
  | .I, .replacement => some ([.hDeallocateL1CacheBlock], .I)
  | .M, .replacement | .M, .inv =>
    some ([.vAllocateTBE, .bIssuePUT, .xCopyDataFromCacheToTBE, .hDeallocateL1CacheBlock], .MI)
  | .MI, .writebackAck => some ([.wDeallocateTBE, .oPopForwardedRequestQueue], .I)
  | .MI, .fwdGETX => some ([.eeSendDataFromTBE, .oPopForwardedRequestQueue], .II)
  | .MI, .writebackNack => some ([.oPopForwardedRequestQueue], .MII)
  | .MII, .fwdGETX =>
    some ([.eeSendDataFromTBE, .wDeallocateTBE, .oPopForwardedRequestQueue], .I)
  | .II, .writebackNack => some ([.wDeallocateTBE, .oPopForwardedRequestQueue], .I)
  | _, _ => none

/-- An entry of the cache or of the TBEs: its state and its data. -/
structure Entry (B : Nat) where
  state : L1State
  dataBlk : Line B
  deriving DecidableEq

/-- What a cache has of the block, and the messages between it and the others. -/
structure Node (B : Nat) where
  entry : Option (Entry B)
  tbe : Option (Entry B)
  table : Option Access
  mandatory : List Access
  requests : List (RequestMsg B)
  forwards : List (RequestMsg B)
  responses : List (ResponseMsg B)
  deriving DecidableEq

/-- A transition so far: the node, the responses sent, and what was completed. -/
structure L1Result (B : Nat) where
  node : Node B
  sent : List (MachineID × ResponseMsg B)
  log : List Done
  deriving DecidableEq

namespace Node

/-- A cache without the block. -/
def empty : Node B := ⟨none, none, none, [], [], [], []⟩

def getState (c : Node B) : L1State :=
  match c.tbe, c.entry with
  | some tbe, _ => tbe.state
  | none, some entry => entry.state
  | none, none => .I

def setState (c : Node B) (state : L1State) : Node B :=
  { c with tbe := c.tbe.map fun tbe => { tbe with state := state },
           entry := c.entry.map fun entry => { entry with state := state } }

end Node

/-- `Sequencer::readCallback`: the read of the table is completed with the data. -/
def readCallback (i : Nat) (data : Line B) : Option Access → Option Done
  | some (.load offset size) | some (.ifetch offset size) =>
    if offset + size ≤ B then some (.loaded i offset (data.getData offset size)) else none
  | _ => none

/-- `Sequencer::writeCallback`: the store of the table is completed, and written into the data. -/
def writeCallback (i : Nat) (data : Line B) : Option Access → Option (Line B × Done)
  | some (.store offset bytes) =>
    if offset + bytes.length ≤ B then some (data.setData bytes offset, .stored i offset bytes) else none
  | _ => none

namespace L1Action

/-- The callbacks of `r_load_hit` and `rx_load_hit`. -/
def loadHit (i : Nat) (r : L1Result B) : Option (L1Result B) :=
  r.node.entry.bind fun entry =>
    (readCallback i entry.dataBlk r.node.table).map fun done =>
      { r with node := { r.node with table := none }, log := r.log ++ [done] }

/-- The callbacks of `s_store_hit` and `sx_store_hit`. -/
def storeHit (i : Nat) (r : L1Result B) : Option (L1Result B) :=
  r.node.entry.bind fun entry =>
    (writeCallback i entry.dataBlk r.node.table).map fun done =>
      { r with node := { r.node with table := none, entry := some { entry with dataBlk := done.1 } },
               log := r.log ++ [done.2] }

/-- The data message to the requestor of a forwarded request. -/
def sendData (i : Nat) (data : Line B) (r : L1Result B) : Option (L1Result B) :=
  r.node.forwards.head?.map fun msg =>
    { r with sent := r.sent ++ [(msg.requestor, ⟨.DATA, .l1Cache i, data⟩)] }

/-- One action of cache `i`. -/
def perform (i : Nat) (r : L1Result B) : L1Action → Option (L1Result B)
  | aIssueRequest =>
    some { r with node := { r.node with
      requests := r.node.requests ++ [⟨.GETX, .l1Cache i, .zero⟩] } }
  | bIssuePUT =>
    r.node.entry.map fun entry =>
      { r with node := { r.node with
        requests := r.node.requests ++ [⟨.PUTX, .l1Cache i, entry.dataBlk⟩] } }
  | eSendData => r.node.entry.bind fun entry => sendData i entry.dataBlk r
  | eeSendDataFromTBE => r.node.tbe.bind fun tbe => sendData i tbe.dataBlk r
  | iAllocateL1CacheBlock =>
    match r.node.entry with
    | some _ => some r
    | none => some { r with node := { r.node with entry := some ⟨.I, .zero⟩ } }
  | hDeallocateL1CacheBlock => some { r with node := { r.node with entry := none } }
  | mPopMandatoryQueue => some { r with node := { r.node with mandatory := r.node.mandatory.tail } }
  | nPopResponseQueue => some { r with node := { r.node with responses := r.node.responses.tail } }
  | oPopForwardedRequestQueue =>
    some { r with node := { r.node with forwards := r.node.forwards.tail } }
  | rLoadHit | rxLoadHit => loadHit i r
  | sStoreHit | sxStoreHit => storeHit i r
  | uWriteDataToCache =>
    r.node.responses.head?.bind fun msg =>
      r.node.entry.map fun entry =>
        { r with node := { r.node with entry := some { entry with dataBlk := msg.dataBlk } } }
  | vAllocateTBE =>
    match r.node.tbe with
    | some _ => none
    | none => some { r with node := { r.node with tbe := some ⟨.I, .zero⟩ } }
  | wDeallocateTBE =>
    match r.node.tbe with
    | some _ => some { r with node := { r.node with tbe := none } }
    | none => none
  | xCopyDataFromCacheToTBE =>
    r.node.entry.bind fun entry =>
      r.node.tbe.map fun tbe =>
        { r with node := { r.node with tbe := some { tbe with dataBlk := entry.dataBlk } } }
  | zStall => some r

end L1Action

namespace Node

/-- `doTransition`: the actions one after the other, then the next state; or nothing at all for a stall. -/
def doTransition (i : Nat) (c : Node B) (event : L1Event) : Option (L1Result B) :=
  (l1Transition c.getState event).bind fun t =>
    if .zStall ∈ t.1 then some ⟨c, [], []⟩
    else
      (t.1.foldlM (L1Action.perform i) ⟨c, [], []⟩).map fun r =>
        { r with node := r.node.setState t.2 }

/-- `forwardRequestNetwork_in`. -/
def forwardRequestNetwork (i : Nat) (c : Node B) : Option (L1Result B) :=
  c.forwards.head?.bind fun msg =>
    match msg.type with
    | .GETX => c.doTransition i .fwdGETX
    | .WB_ACK => c.doTransition i .writebackAck
    | .WB_NACK => c.doTransition i .writebackNack
    | .INV => c.doTransition i .inv
    | _ => none

/-- `responseNetwork_in`. -/
def responseNetwork (i : Nat) (c : Node B) : Option (L1Result B) :=
  c.responses.head?.bind fun msg =>
    match msg.type with
    | .DATA => c.doTransition i .data
    | _ => none

def mandatoryRequestTypeToEvent : Access → L1Event
  | .load _ _ => .load
  | .ifetch _ _ => .ifetch
  | .store _ _ => .store

/-- `mandatoryQueue_in`, for a request to the block. -/
def mandatoryQueue (i : Nat) (c : Node B) : Option (L1Result B) :=
  c.mandatory.head?.bind fun access => c.doTransition i (mandatoryRequestTypeToEvent access)

/-- `mandatoryQueue_in`, for a request to another block for which this one has to make room. -/
def replacement (i : Nat) (c : Node B) : Option (L1Result B) := c.doTransition i .replacement

end Node

end NvpSim.Ruby.Mi
