/-
  The MI_example protocol (`mem/protocol/MI_example-{cache,dir,dma}.sm`): any number of L1 caches and DMA
  controllers and one directory with its memory, for one block.

  The messages of a cache and of a DMA controller stand in order, one queue for each channel; a message is taken
  from the head of its queue at any time.  A request that the directory RECYCLES stays where it is.

  Destinations are sets of machines, `NetDest`s.  The memory is behind a queue of packets; of a packet whose
  data is shorter than the line, it writes the bytes that lie behind it too, which may be anything (`junk`).
-/
import NvpSim.Ruby.MiCache

namespace NvpSim.Ruby.Mi

variable {B : Nat}

/-! ## DMA controllers -/

/-- A DMA request within the line: its direction, its offset, and its bytes (for a read, as many as it reads). -/
structure DmaRequest where
  write : Bool
  offset : Nat
  data : List UInt8
  deriving DecidableEq, Repr

/-- `SequencerMsg` and `DMARequestMsg`: the direction, the offset of the physical address, the requestor, the
    data and the length. -/
structure DmaRequestMsg (B : Nat) where
  write : Bool
  offset : Nat
  requestor : MachineID
  dataBlk : Line B
  len : Nat
  deriving DecidableEq

inductive DmaResponseMsg (B : Nat) where
  | DATA (dataBlk : Line B)
  | ACK
  deriving DecidableEq

/-- `State` of a DMA controller. -/
inductive DmaState where
  | READY | BUSY_RD | BUSY_WR
  deriving DecidableEq, Repr

/-- A DMA controller with its sequencer, and the messages between it and the directory. -/
structure DmaNode (B : Nat) where
  state : DmaState
  active : Option DmaRequest
  mandatory : List (DmaRequestMsg B)
  requests : List (DmaRequestMsg B)
  responses : List (DmaResponseMsg B)
  deriving DecidableEq

namespace DmaNode

def empty : DmaNode B := ⟨.READY, none, [], [], []⟩

/-- `DMASequencer::makeRequest`: the bytes are put at their place in a line that was cleared. -/
def makeRequest (d : Nat) (c : DmaNode B) (r : DmaRequest) : Option (DmaNode B) :=
  match c.active with
  | some _ => none
  | none =>
    if r.offset + r.data.length ≤ B then
      some { c with active := some r, mandatory := c.mandatory ++
        [⟨r.write, r.offset, .dma d, if r.write then Line.zero.setData r.data r.offset else .zero, r.data.length⟩] }
    else none

/-- `dmaRequestQueue_in`: `ReadRequest` and `WriteRequest` are for a controller that is ready. -/
def dmaRequestQueue (c : DmaNode B) : Option (DmaNode B) :=
  match c.state, c.mandatory with
  | .READY, msg :: rest =>
    some { c with state := if msg.write then .BUSY_WR else .BUSY_RD, mandatory := rest,
                  requests := c.requests ++ [msg] }
  | _, _ => none

/-- `dmaResponseQueue_in`: `Data` and `Ack` complete the request of the sequencer. -/
def dmaResponseQueue (c : DmaNode B) : Option (DmaNode B) :=
  match c.state, c.responses, c.active with
  | .BUSY_RD, .DATA _ :: rest, some r =>
    if r.write then none else some { c with state := .READY, active := none, responses := rest }
  | .BUSY_WR, .ACK :: rest, some _ => some { c with state := .READY, active := none, responses := rest }
  | _, _, _ => none

end DmaNode

/-! ## The directory -/

/-- `State`. -/
inductive DirState where
  | I | M | M_DRD | M_DWR | M_DWRI | M_DRDI | IM | MI | ID | ID_W
  deriving DecidableEq, Repr

/-- `Event`. -/
inductive DirEvent where
  | GETX | GETS | PUTX | PUTX_NotOwner | DMA_READ | DMA_WRITE | Memory_Data | Memory_Ack
  deriving DecidableEq, Repr

/-- The actions. -/
inductive DirAction where
  | lSendWriteBackAck | bSendWriteBackNack | cClearOwner | dSendData
  | drSendDMAData | drpSendDMAData | daSendDMAAck
  | eOwnerIsRequestor | fForwardRequest | invSendCacheInvalidate
  | iPopIncomingRequestQueue | pPopIncomingDMARequestQueue
  | vAllocateTBE | rAllocateTbeForDmaRead | vAllocateTBEFromRequestNet | wDeallocateTBE
  | zRecycleRequestQueue | yRecycleDMARequestQueue
  | qfQueueMemoryFetchRequest | qfQueueMemoryFetchRequestDMA
  | qwQueueMemoryWBRequestPartial | qwQueueMemoryWBRequestPartialTBE | lQueueMemoryWBRequest
  | lPopMemQueue
  deriving DecidableEq, Repr

/-- The transitions. -/
def dirTransition : DirState → DirEvent → Option (List DirAction × DirState)
  | st@(.M_DRD), .GETX | st@(.M_DWR), .GETX | st@(.M_DWRI), .GETX | st@(.M_DRDI), .GETX =>
    some ([.zRecycleRequestQueue], st)
  | st@(.IM), .GETX | st@(.IM), .GETS | st@(.IM), .PUTX | st@(.IM), .PUTX_NotOwner
  | st@(.MI), .GETX | st@(.MI), .GETS | st@(.MI), .PUTX | st@(.MI), .PUTX_NotOwner
  | st@(.ID), .GETX | st@(.ID), .GETS | st@(.ID), .PUTX | st@(.ID), .PUTX_NotOwner
  | st@(.ID_W), .GETX | st@(.ID_W), .GETS | st@(.ID_W), .PUTX | st@(.ID_W), .PUTX_NotOwner =>
    some ([.zRecycleRequestQueue], st)
  | st@(.IM), .DMA_READ | st@(.IM), .DMA_WRITE | st@(.MI), .DMA_READ | st@(.MI), .DMA_WRITE
  | st@(.ID), .DMA_READ | st@(.ID), .DMA_WRITE | st@(.ID_W), .DMA_READ | st@(.ID_W), .DMA_WRITE =>
    some ([.yRecycleDMARequestQueue], st)
  | .I, .GETX =>
    some ([.qfQueueMemoryFetchRequest, .eOwnerIsRequestor, .iPopIncomingRequestQueue], .IM)
  | .IM, .Memory_Data => some ([.dSendData, .lPopMemQueue], .M)
  | .I, .DMA_READ =>
    some ([.rAllocateTbeForDmaRead, .qfQueueMemoryFetchRequestDMA, .pPopIncomingDMARequestQueue], .ID)
  | .ID, .Memory_Data => some ([.drSendDMAData, .wDeallocateTBE, .lPopMemQueue], .I)
  | .I, .DMA_WRITE =>
    some ([.vAllocateTBE, .qwQueueMemoryWBRequestPartial, .pPopIncomingDMARequestQueue], .ID_W)
  | .ID_W, .Memory_Ack => some ([.daSendDMAAck, .wDeallocateTBE, .lPopMemQueue], .I)
  | .M, .DMA_READ =>
    some ([.vAllocateTBE, .invSendCacheInvalidate, .pPopIncomingDMARequestQueue], .M_DRD)
  | .M_DRD, .PUTX =>
    some ([.drpSendDMAData, .cClearOwner, .lQueueMemoryWBRequest, .iPopIncomingRequestQueue], .M_DRDI)
  | .M_DRDI, .Memory_Ack => some ([.lSendWriteBackAck, .wDeallocateTBE, .lPopMemQueue], .I)
  | .M, .DMA_WRITE =>
    some ([.vAllocateTBE, .invSendCacheInvalidate, .pPopIncomingDMARequestQueue], .M_DWR)
  | .M_DWR, .PUTX =>
    some ([.qwQueueMemoryWBRequestPartialTBE, .cClearOwner, .iPopIncomingRequestQueue], .M_DWRI)
  | .M_DWRI, .Memory_Ack =>
    some ([.lSendWriteBackAck, .daSendDMAAck, .wDeallocateTBE, .lPopMemQueue], .I)
  | .M, .GETX => some ([.fForwardRequest, .eOwnerIsRequestor, .iPopIncomingRequestQueue], .M)
  | .M, .PUTX =>
    some ([.cClearOwner, .vAllocateTBEFromRequestNet, .lQueueMemoryWBRequest, .iPopIncomingRequestQueue], .MI)
  | .MI, .Memory_Ack => some ([.lSendWriteBackAck, .wDeallocateTBE, .lPopMemQueue], .I)
  | .M, .PUTX_NotOwner => some ([.bSendWriteBackNack, .iPopIncomingRequestQueue], .M)
  | .I, .PUTX_NotOwner => some ([.bSendWriteBackNack, .iPopIncomingRequestQueue], .I)
  | _, _ => none

/-- `TBE`; a field that no action has set is as it was made. -/
structure DirTBE (B : Nat) where
  state : DirState
  offset : Nat
  dataBlk : Line B
  len : Nat
  dmaRequestor : Option MachineID
  deriving DecidableEq

/-- What the directory has of the block. -/
structure Directory (B : Nat) where
  state : DirState
  owner : NetDest
  tbe : Option (DirTBE B)

namespace Directory

def getState (dir : Directory B) : DirState :=
  match dir.tbe with
  | some tbe => tbe.state
  | none => dir.state

/-- `setState`, with its assertions on the owner. -/
def setState (dir : Directory B) (state : DirState) : Option (Directory B) :=
  if (state = .M → dir.owner.count = 1) ∧ (state = .I → dir.owner.count = 0) then
    some { dir with state := state, tbe := dir.tbe.map fun tbe => { tbe with state := state } }
  else none

end Directory

/-! ## The memory -/

/-- A packet to the memory, with the machine that it is for. -/
inductive MemPkt where
  | read (id : MachineID)
  | write (id : MachineID) (data : List UInt8)
  deriving DecidableEq, Repr

/-- `MemoryRequestType`, as far as it is used. -/
inductive MemoryRequestType where
  | MEMORY_READ | MEMORY_WB
  deriving DecidableEq, Repr

structure MemoryMsg (B : Nat) where
  type : MemoryRequestType
  originalRequestor : MachineID
  dataBlk : Line B
  deriving DecidableEq

/-- A write to the memory of a whole line, from data that may be shorter. -/
def writeLine (data : List UInt8) (junk : Line B) : Line B := fun k => data.getD k (junk k)

/-! ## The system -/

/-- All machines, the memory with its queues, and what has been completed so far. -/
structure Sys (B : Nat) where
  nodes : Nat → Node B
  dmas : Nat → DmaNode B
  dir : Directory B
  toMemory : List MemPkt
  fromMemory : List (MemoryMsg B)
  memory : Line B
  log : List Done

/-- A message at the head of a queue of the directory. -/
inductive DirPort where
  | request (i : Nat)
  | dma (d : Nat)
  | mem
  deriving DecidableEq, Repr

namespace Sys

variable (n k : Nat)

/-- All caches empty, and the line in the memory. -/
def init (line : Line B) : Sys B where
  nodes := fun _ => .empty
  dmas := fun _ => .empty
  dir := ⟨.I, .new (counts n k), none⟩
  toMemory := []
  fromMemory := []
  memory := line
  log := []

/-- One cache changes. -/
def atNode (s : Sys B) (i : Nat) (f : Node B → Node B) : Sys B :=
  { s with nodes := Function.update s.nodes i (f (s.nodes i)) }

/-- One DMA controller changes. -/
def atDma (s : Sys B) (d : Nat) (f : DmaNode B → DmaNode B) : Sys B :=
  { s with dmas := Function.update s.dmas d (f (s.dmas d)) }

/-- `Destination.add(id)` to no destinations. -/
def destination (id : MachineID) : Option NetDest :=
  (NetDest.new (counts n k)).add id.machine.1 id.machine.2

/-- A message goes to all caches of a set. -/
def toCaches (s : Sys B) (destination : NetDest) (f : Node B → Node B) : Sys B :=
  { s with nodes := fun j =>
      if j < n ∧ destination.carries (0, j) = true then f (s.nodes j) else s.nodes j }

/-- A message goes to all DMA controllers of a set. -/
def toDmas (s : Sys B) (destination : NetDest) (f : DmaNode B → DmaNode B) : Sys B :=
  { s with dmas := fun d =>
      if d < k ∧ destination.carries (2, d) = true then f (s.dmas d) else s.dmas d }

/-- A response to a cache. -/
def respond (s : Sys B) (m : MachineID × ResponseMsg B) : Option (Sys B) :=
  (destination n k m.1).map fun dest =>
    s.toCaches n dest fun c => { c with responses := c.responses ++ [m.2] }

/-- A message to a cache on the forward network. -/
def forward (s : Sys B) (dest : NetDest) (msg : RequestMsg B) : Sys B :=
  s.toCaches n dest fun c => { c with forwards := c.forwards ++ [msg] }

/-- A response to a DMA controller. -/
def dmaRespond (s : Sys B) (id : MachineID) (msg : DmaResponseMsg B) : Option (Sys B) :=
  (destination n k id).map fun dest =>
    s.toDmas k dest fun c => { c with responses := c.responses ++ [msg] }

/-- What a transition of a cache leaves behind. -/
def applyL1 (s : Sys B) (i : Nat) (r : L1Result B) : Option (Sys B) :=
  r.sent.foldlM (respond n k) { s with nodes := Function.update s.nodes i r.node, log := s.log ++ r.log }

/-! ### Actions of the directory -/

/-- The message at the head of `requestQueue_in`. -/
def peekRequest (s : Sys B) : DirPort → Option (RequestMsg B)
  | .request i => (s.nodes i).requests.head?
  | _ => none

/-- The message at the head of `dmaRequestQueue_in`. -/
def peekDma (s : Sys B) : DirPort → Option (DmaRequestMsg B)
  | .dma d => (s.dmas d).requests.head?
  | _ => none

/-- The message at the head of `memQueue_in`. -/
def peekMem (s : Sys B) : DirPort → Option (MemoryMsg B)
  | .mem => s.fromMemory.head?
  | _ => none

/-- A new TBE for the block, if there is none. -/
def allocateTBE (s : Sys B) (tbe : DirTBE B) : Option (Sys B) :=
  match s.dir.tbe with
  | some _ => none
  | none => some { s with dir := { s.dir with tbe := some tbe } }

/-- A packet to the memory: `queueMemoryRead`, `queueMemoryWrite` and `queueMemoryWritePartial`. -/
def queueMemory (s : Sys B) (pkt : MemPkt) : Sys B := { s with toMemory := s.toMemory ++ [pkt] }

/-- The data of `queueMemoryWritePartial`: as many bytes of the block as it is told, from the offset of the
    address, which is that of the line. -/
def partialData (block : Line B) (size : Nat) : Option (List UInt8) :=
  if 0 + size ≤ B then some (block.getData 0 size) else none

/-- One action of the directory. -/
def perform (port : DirPort) (s : Sys B) : DirAction → Option (Sys B)
  | .lSendWriteBackAck =>
    (s.peekMem port).bind fun msg =>
      (destination n k msg.originalRequestor).map fun dest =>
        s.forward n dest ⟨.WB_ACK, msg.originalRequestor, .zero⟩
  | .bSendWriteBackNack =>
    (s.peekRequest port).bind fun msg =>
      (destination n k msg.requestor).map fun dest =>
        s.forward n dest ⟨.WB_NACK, msg.requestor, .zero⟩
  | .cClearOwner => some { s with dir := { s.dir with owner := s.dir.owner.clear } }
  | .dSendData =>
    (s.peekMem port).bind fun msg =>
      s.respond n k (msg.originalRequestor, ⟨.DATA, .directory, msg.dataBlk⟩)
  | .drSendDMAData =>
    (s.peekMem port).bind fun msg => s.dir.tbe.bind fun tbe => tbe.dmaRequestor.bind fun id =>
      s.dmaRespond n k id (.DATA msg.dataBlk)
  | .drpSendDMAData =>
    (s.peekRequest port).bind fun msg => s.dir.tbe.bind fun tbe => tbe.dmaRequestor.bind fun id =>
      s.dmaRespond n k id (.DATA msg.dataBlk)
  | .daSendDMAAck =>
    s.dir.tbe.bind fun tbe => tbe.dmaRequestor.bind fun id =>
      (s.dmaRespond n k id .ACK).map fun s =>
        { s with log := s.log ++ [.dmaWritten id.machine.2 tbe.offset (tbe.dataBlk.getData tbe.offset tbe.len)] }
  | .eOwnerIsRequestor =>
    (s.peekRequest port).bind fun msg =>
      (s.dir.owner.clear.add msg.requestor.machine.1 msg.requestor.machine.2).map fun owner =>
        { s with dir := { s.dir with owner := owner } }
  | .fForwardRequest =>
    (s.peekRequest port).map fun msg => s.forward n s.dir.owner ⟨msg.type, msg.requestor, .zero⟩
  | .invSendCacheInvalidate =>
    (s.peekDma port).map fun _ => s.forward n s.dir.owner ⟨.INV, .directory, .zero⟩
  | .iPopIncomingRequestQueue =>
    match port with
    | .request i => some (s.atNode i fun c => { c with requests := c.requests.tail })
    | _ => none
  | .pPopIncomingDMARequestQueue =>
    match port with
    | .dma d => some (s.atDma d fun c => { c with requests := c.requests.tail })
    | _ => none
  | .vAllocateTBE =>
    (s.peekDma port).bind fun msg =>
      s.allocateTBE ⟨.I, msg.offset, msg.dataBlk, msg.len, some msg.requestor⟩
  | .rAllocateTbeForDmaRead =>
    (s.peekDma port).bind fun msg => s.allocateTBE ⟨.I, 0, .zero, 0, some msg.requestor⟩
  | .vAllocateTBEFromRequestNet =>
    (s.peekRequest port).bind fun msg => s.allocateTBE ⟨.I, 0, msg.dataBlk, 0, none⟩
  | .wDeallocateTBE =>
    s.dir.tbe.map fun _ => { s with dir := { s.dir with tbe := none } }
  | .zRecycleRequestQueue | .yRecycleDMARequestQueue => some s
  | .qfQueueMemoryFetchRequest =>
    (s.peekRequest port).map fun msg => s.queueMemory (.read msg.requestor)
  | .qfQueueMemoryFetchRequestDMA =>
    (s.peekDma port).map fun msg => s.queueMemory (.read msg.requestor)
  | .qwQueueMemoryWBRequestPartial =>
    (s.peekDma port).bind fun msg =>
      (partialData msg.dataBlk msg.len).map fun data => s.queueMemory (.write msg.requestor data)
  | .qwQueueMemoryWBRequestPartialTBE =>
    (s.peekRequest port).bind fun msg => s.dir.tbe.bind fun tbe =>
      (partialData tbe.dataBlk tbe.len).map fun data => s.queueMemory (.write msg.requestor data)
  | .lQueueMemoryWBRequest =>
    (s.peekRequest port).map fun msg =>
      s.queueMemory (.write msg.requestor (msg.dataBlk.getData 0 B))
  | .lPopMemQueue => some { s with fromMemory := s.fromMemory.tail }

/-- `doTransition` of the directory. -/
def doTransition (s : Sys B) (port : DirPort) (event : DirEvent) : Option (Sys B) :=
  (dirTransition s.dir.getState event).bind fun t =>
    (t.1.foldlM (perform n k port) s).bind fun s =>
      (s.dir.setState t.2).map fun dir => { s with dir := dir }

/-- `requestQueue_in`: a `PUTX` is told apart by whether it comes from the owner. -/
def requestQueue (s : Sys B) (i : Nat) : Option (Sys B) :=
  (s.peekRequest (.request i)).bind fun msg =>
    match msg.type with
    | .GETS => s.doTransition n k (.request i) .GETS
    | .GETX => s.doTransition n k (.request i) .GETX
    | .PUTX =>
      (s.dir.owner.isElement msg.requestor.machine.1 msg.requestor.machine.2).bind fun owns =>
        s.doTransition n k (.request i) (if owns then .PUTX else .PUTX_NotOwner)
    | _ => none

/-- `dmaRequestQueue_in`. -/
def dmaRequestQueue (s : Sys B) (d : Nat) : Option (Sys B) :=
  (s.peekDma (.dma d)).bind fun msg =>
    s.doTransition n k (.dma d) (if msg.write then .DMA_WRITE else .DMA_READ)

/-- `memQueue_in`. -/
def memQueue (s : Sys B) : Option (Sys B) :=
  (s.peekMem .mem).bind fun msg =>
    match msg.type with
    | .MEMORY_READ => s.doTransition n k .mem .Memory_Data
    | .MEMORY_WB => s.doTransition n k .mem .Memory_Ack

/-- The memory performs the next packet and answers. -/
def access (s : Sys B) (junk : Line B) : Option (Sys B) :=
  match s.toMemory with
  | [] => none
  | .read id :: rest =>
    some { s with toMemory := rest, fromMemory := s.fromMemory ++ [⟨.MEMORY_READ, id, s.memory⟩] }
  | .write id data :: rest =>
    some { s with toMemory := rest, memory := writeLine data junk,
                  fromMemory := s.fromMemory ++ [⟨.MEMORY_WB, id, .zero⟩] }

end Sys

/-! ## Runs -/

/-- The bytes of an access are in the line. -/
def Access.Fits (B : Nat) : Access → Prop
  | .load offset size | .ifetch offset size => offset + size ≤ B
  | .store offset data => offset + data.length ≤ B

instance (a : Access) : Decidable (a.Fits B) :=
  match a with
  | .load _ _ | .ifetch _ _ | .store _ _ => inferInstanceAs (Decidable (_ ≤ _))

/-- What can happen: a processor or a device makes a request; a controller looks at one of its queues; a block is
    to make room; the memory performs a packet. -/
inductive Act (B : Nat) where
  | issue (i : Nat) (access : Access)
  | mandatory (i : Nat)
  | replace (i : Nat)
  | forwarded (i : Nat)
  | response (i : Nat)
  | request (i : Nat)
  | memory
  | access (junk : Line B)
  | dmaIssue (d : Nat) (r : DmaRequest)
  | dmaMandatory (d : Nat)
  | dmaRequest (d : Nat)
  | dmaResponse (d : Nat)
  deriving DecidableEq

namespace Sys

variable (n k : Nat)

/-- One step; `none` if a transition does not exist or an assertion fails. -/
def step (s : Sys B) : Act B → Option (Sys B)
  | .issue i access =>
    some (s.atNode i fun c => { c with table := some access, mandatory := c.mandatory ++ [access] })
  | .mandatory i => ((s.nodes i).mandatoryQueue i).bind (s.applyL1 n k i)
  | .replace i => ((s.nodes i).replacement i).bind (s.applyL1 n k i)
  | .forwarded i => ((s.nodes i).forwardRequestNetwork i).bind (s.applyL1 n k i)
  | .response i => ((s.nodes i).responseNetwork i).bind (s.applyL1 n k i)
  | .request i => s.requestQueue n k i
  | .memory => s.memQueue n k
  | .access junk => s.access junk
  | .dmaIssue d r => ((s.dmas d).makeRequest d r).map fun c => s.atDma d fun _ => c
  | .dmaMandatory d => (s.dmas d).dmaRequestQueue.map fun c => s.atDma d fun _ => c
  | .dmaRequest d => s.dmaRequestQueue n k d
  | .dmaResponse d => (s.dmas d).dmaResponseQueue.map fun c => s.atDma d fun _ => c

/-- When a step can happen: the machine exists, there is a message at the head of the queue; a sequencer makes
    a request for a line only if it has none, and only cached blocks are replaced. -/
def Legal (s : Sys B) : Act B → Prop
  | .issue i access => i < n ∧ (s.nodes i).table = none ∧ access.Fits B
  | .mandatory i => i < n ∧ (s.nodes i).mandatory ≠ []
  | .replace i => i < n ∧ (s.nodes i).entry ≠ none
  | .forwarded i => i < n ∧ (s.nodes i).forwards ≠ []
  | .response i => i < n ∧ (s.nodes i).responses ≠ []
  | .request i => i < n ∧ (s.nodes i).requests ≠ []
  | .memory => s.fromMemory ≠ []
  | .access _ => s.toMemory ≠ []
  | .dmaIssue d r => d < k ∧ (s.dmas d).active = none ∧ r.offset + r.data.length ≤ B
  | .dmaMandatory d => d < k ∧ (s.dmas d).mandatory ≠ []
  | .dmaRequest d => d < k ∧ (s.dmas d).requests ≠ []
  | .dmaResponse d => d < k ∧ (s.dmas d).responses ≠ []

instance (s : Sys B) (a : Act B) : Decidable (s.Legal n k a) :=
  match a with
  | .issue _ _ | .dmaIssue _ _ => inferInstanceAs (Decidable (_ ∧ _ ∧ _))
  | .mandatory _ | .replace _ | .forwarded _ | .response _ | .request _ | .dmaMandatory _
  | .dmaRequest _ | .dmaResponse _ => inferInstanceAs (Decidable (_ ∧ _))
  | .memory | .access _ => inferInstanceAs (Decidable (_ ≠ _))

end Sys

end NvpSim.Ruby.Mi
