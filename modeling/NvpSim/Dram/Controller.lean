/-
  `DRAMCtrl` (`mem/dram_ctrl.cc`), as far as its queues are concerned: write requests are cut into bursts, merged
  and queued, and the next burst is chosen from a queue.

  Of the DRAM behind the queues this reads which rows are open, which ranks are being refreshed, and the ticks at
  which a bank may next be precharged or activated; how an access moves these ticks is left out, so that the
  choice is among the packets of ANY state.  The event queue is an agenda, in which of the events due at one tick
  the one scheduled LAST is first; `other` is an event of another component.  A failed `assert`, a `panic` and
  undefined behaviour are faults, with the function in which they happen.
-/
import Mathlib.Data.Prod.Lex
import NvpSim.Base.Bitfield
import NvpSim.Dram.Params
import NvpSim.Lib.Agenda
import NvpSim.Lib.Checked
import NvpSim.Mem.Packet
import NvpSim.Sim.Event

namespace NvpSim.Dram

open NvpSim.Base NvpSim.Lib NvpSim.Mem NvpSim.Sim NvpSim.Base.Bitfield

/-! ## Events and faults -/

/-- The event that looks for the next request, and everything else. -/
inductive DramEvent where
  | nextReq
  | other
  deriving DecidableEq, Repr

/-- Where a check stands. -/
inductive Site where
  | addToWriteQueue
  | decodeAddr
  | access
  | accessAndRespond
  | chooseNext
  | minBankPrep
  | eventQueue (event : DramEvent)
  deriving DecidableEq, Repr

/-- How the simulation stops: a failed `assert`, a `panic`, or undefined behaviour (a division by zero, a shift
    by the width of the word or more). -/
inductive Fault where
  | assertion (site : Site)
  | panic (site : Site)
  | undefined (site : Site)
  deriving DecidableEq, Repr

/-- `assert(c)`. -/
def require (site : Site) (c : Prop) [Decidable c] : Except Fault Unit :=
  if c then .ok () else .error (.assertion site)

section Require

variable {site : Site} {c : Prop} [Decidable c]

theorem ensures_require {E : Fault → Prop} (hE : E (.assertion site)) : Ensures (require site c) (fun _ => c) E :=
  .ite (fun h => .ok h) fun _ => .error hE

theorem require_bind {α : Type} (h : c) (f : Unit → Except Fault α) : (require site c >>= f) = f () := by
  rw [require, if_pos h]
  rfl

end Require

/-- The difference of two ticks, unsigned: it wraps around below zero. -/
def tickSub (a b : Nat) : Nat := if b ≤ a then a - b else a + 2 ^ 64 - b

/-! ## Banks and ranks -/

/-- `Bank`; no open row is `NO_ROW`. -/
structure Bank where
  openRow : Option Nat
  preAllowedAt : Nat
  actAllowedAt : Nat
  deriving DecidableEq, Repr

inductive RefreshState where
  | idle
  | drain
  | pre
  | run
  deriving DecidableEq, Repr

/-- `Rank`. -/
structure Rank where
  refreshState : RefreshState
  banks : Nat → Bank

/-- A rank as the constructor of the controller leaves it. -/
def Rank.new : Rank := ⟨.idle, fun _ => ⟨none, 0, 0⟩⟩

def Rank.isAvailable (r : Rank) : Bool := r.refreshState == .idle

/-- The members of a packet that the controller reads: which one it is, its command, its bytes, whether a
    cache has promised to answer it, and the delays that it brings along. -/
structure Pkt where
  id : Nat
  cmd : MemCmd
  addr : Nat
  size : Nat
  memInhibitAsserted : Bool
  delay : Nat
  deriving DecidableEq, Repr

/-- `DRAMPacket`: one burst of a packet. -/
structure DRAMPacket where
  readyTime : Nat
  pkt : Pkt
  isRead : Bool
  rank : Nat
  bank : Nat
  row : Nat
  bankId : Nat
  addr : Nat
  size : Nat
  deriving DecidableEq, Repr

/-- `DRAMCtrl`, as far as write requests and the choice of a burst are concerned; `answered` are the packets that
    have been responded to. -/
structure DRAMCtrl where
  now : Nat
  agenda : List ((Nat ×ₗ Int) × DramEvent)
  ranks : Nat → Rank
  busBusyUntil : Nat
  activeRank : Nat
  writeQueue : List DRAMPacket
  answered : List Nat

namespace DRAMCtrl

/-- A bank of a rank. -/
def bank (s : DRAMCtrl) (r b : Nat) : Bank := (s.ranks r).banks b

/-! ## The event queue -/

def scheduled (s : DRAMCtrl) (e : DramEvent) : Bool := (Agenda.keyOf s.agenda e).isSome

/-- Enter an event of the default priority. -/
def enter (s : DRAMCtrl) (e : DramEvent) (tick : Nat) : DRAMCtrl :=
  { s with agenda := Agenda.enter s.agenda (toLex (tick, 0), e) }

def schedule (s : DRAMCtrl) (e : DramEvent) (tick : Nat) : Except Fault DRAMCtrl := do
  require (.eventQueue e) (s.now ≤ tick ∧ s.scheduled e = false)
  .ok (s.enter e tick)

/-- Schedule the next request unless one is scheduled already. -/
def kick (s : DRAMCtrl) (tick : Nat) : Except Fault DRAMCtrl :=
  if s.scheduled .nextReq then .ok s else s.schedule .nextReq tick

end DRAMCtrl

/-! ## Bursts -/

variable (p : DRAMCtrlParams)

/-- The rank, bank and row of an address, before they are cut to the width of their types. -/
def decode (dramPktAddr : Nat) : Nat × Nat × Nat :=
  let addr := dramPktAddr / p.burstSize
  match p.addrMapping with
  | .roRaBaChCo =>
    let addr := addr / p.columnsPerRowBuffer / p.channels
    let bank := addr % p.banksPerRank
    let addr := addr / p.banksPerRank
    (addr % p.ranksPerChannel, bank, addr / p.ranksPerChannel % p.rowsPerBank)
  | .roRaBaCoCh =>
    let addr := addr / p.columnsPerStripe / p.channels / (p.columnsPerRowBuffer / p.columnsPerStripe)
    let bank := addr % p.banksPerRank
    let addr := addr / p.banksPerRank
    (addr % p.ranksPerChannel, bank, addr / p.ranksPerChannel % p.rowsPerBank)
  | .roCoRaBaCh =>
    let addr := addr / p.columnsPerStripe / p.channels
    let bank := addr % p.banksPerRank
    let addr := addr / p.banksPerRank
    let rank := addr % p.ranksPerChannel
    let addr := addr / p.ranksPerChannel / (p.columnsPerRowBuffer / p.columnsPerStripe)
    (rank, bank, addr % p.rowsPerBank)

/-- What `decodeAddr` divides by. -/
def divisors : List Nat :=
  match p.addrMapping with
  | .roRaBaChCo =>
    [p.burstSize, p.columnsPerRowBuffer, p.channels, p.banksPerRank, p.ranksPerChannel, p.rowsPerBank]
  | _ =>
    [p.burstSize, p.columnsPerStripe, p.channels, p.columnsPerRowBuffer / p.columnsPerStripe,
      p.banksPerRank, p.ranksPerChannel, p.rowsPerBank]

/-- `decodeAddr`; rank and bank are 8-bit, the row is 64-bit, and `NO_ROW` is the largest 32-bit
    number. -/
def decodeAddr (now : Nat) (pkt : Pkt) (dramPktAddr size : Nat) (isRead : Bool) : Except Fault DRAMPacket :=
  if 0 ∈ divisors p then .error (.undefined .decodeAddr)
  else do
    let (rank, bank, row) := decode p dramPktAddr
    let rank := rank % 2 ^ 8
    let bank := bank % 2 ^ 8
    require .decodeAddr (rank < p.ranksPerChannel)
    require .decodeAddr (bank < p.banksPerRank)
    require .decodeAddr (row < p.rowsPerBank)
    require .decodeAddr (row < 2 ^ 32 - 1)
    .ok ⟨now, pkt, isRead, rank, bank, row, p.banksPerRank * rank + bank, dramPktAddr, size⟩

/-- The address after the burst of `addr`. -/
def nextBurst (addr : Nat) : Nat := (addr ||| (p.burstSize - 1)) + 1

/-- The bytes of a packet in the burst of `addr`. -/
def burstBytes (pkt : Pkt) (addr : Nat) : Nat :=
  min (nextBurst p addr) (pkt.addr + pkt.size) - addr

/-- The number of bursts of a packet. -/
def dramPktCount (pkt : Pkt) : Nat :=
  divCeil ((pkt.addr &&& (p.burstSize - 1)) + pkt.size) p.burstSize

/-- `AbstractMemory::access` as far as the packet itself is concerned: in the end it is a response, if
    it needs one.  The data is left out. -/
def access (pkt : Pkt) : Except Fault Pkt := do
  require .access (p.range.start ≤ pkt.addr ∧ pkt.addr + pkt.size - 1 ≤ p.range.last)
  if pkt.memInhibitAsserted then .ok pkt
  else if pkt.cmd ≠ .swapReq ∧ pkt.cmd.isRead ∧ pkt.cmd.isWrite then .error (.assertion .access)
  else if !(pkt.cmd.isRead || pkt.cmd.isInvalidate || pkt.cmd.isWrite) then .error (.panic .access)
  else .ok (if pkt.cmd.needsResponse then { pkt with cmd := pkt.cmd.responseCommand } else pkt)

namespace DRAMCtrl

/-- `accessAndRespond(pkt, static_latency)`; the queue of the port schedules an event for the response. -/
def accessAndRespond (s : DRAMCtrl) (pkt : Pkt) (staticLatency : Nat) : Except Fault DRAMCtrl := do
  let rsp ← access p pkt
  if pkt.cmd.needsResponse then do
    require .accessAndRespond (rsp.cmd.isResponse = true)
    .ok { s.enter .other (s.now + staticLatency + pkt.delay) with answered := s.answered ++ [pkt.id] }
  else .ok s

/-! ## Requests coming in -/

/-- Merge a burst with an entry of the write queue, if that can be done. -/
def mergeWith (w : DRAMPacket) (addr size : Nat) : Option DRAMPacket :=
  if addr ≤ w.addr then
    if w.addr + w.size ≤ addr + size then some { w with addr := addr, size := size }
    else if w.addr ≤ addr + size ∧ w.addr + w.size - addr ≤ p.burstSize then
      some { w with addr := addr, size := w.addr + w.size - addr }
    else none
  else if addr + size ≤ w.addr + w.size then some w
  else if addr ≤ w.addr + w.size ∧ addr + size - w.addr ≤ p.burstSize then
    some { w with size := addr + size - w.addr }
  else none

/-- Merge a burst with the first entry with which that can be done. -/
def mergeInto (addr size : Nat) : List DRAMPacket → Option (List DRAMPacket)
  | [] => none
  | w :: ws =>
    match mergeWith p w addr size with
    | some w' => some (w' :: ws)
    | none => (mergeInto addr size ws).map (w :: ·)

/-- One turn of the loop of `addToWriteQueue`. -/
def writeTurn (pkt : Pkt) (s : DRAMCtrl) (addr : Nat) : Except Fault DRAMCtrl :=
  let size := burstBytes p pkt addr
  match mergeInto p addr size s.writeQueue with
  | some writeQueue => .ok { s with writeQueue := writeQueue }
  | none => do
    let dramPkt ← decodeAddr p s.now pkt addr size false
    require .addToWriteQueue (s.writeQueue.length < p.writeBufferSize)
    .ok { s with writeQueue := s.writeQueue ++ [dramPkt] }

/-- The loop of `addToWriteQueue`. -/
def writeLoop (pkt : Pkt) : Nat → DRAMCtrl → Nat → Except Fault DRAMCtrl
  | 0, s, _ => .ok s
  | n + 1, s, addr => do
    let s ← writeTurn p pkt s addr
    writeLoop pkt n s (nextBurst p addr)

def addToWriteQueue (s : DRAMCtrl) (pkt : Pkt) (pktCount : Nat) : Except Fault DRAMCtrl := do
  require .addToWriteQueue (pkt.cmd.isWrite = true)
  let s ← writeLoop p pkt pktCount s pkt.addr
  let s ← s.accessAndRespond p pkt p.frontendLatency
  s.kick s.now

/-! ## Choosing the next request -/

/-- The rank of a packet is available. -/
def available (s : DRAMCtrl) (q : DRAMPacket) : Bool := (s.ranks q.rank).isAvailable

/-- Set a bit of a 64-bit mask; the shift is by the number of the bit. -/
def setMask (mask : BitVec 64) (bankId : Nat) : Except Fault (BitVec 64) :=
  if bankId < 64 then .ok (insertBits mask bankId bankId 1) else .error (.undefined .minBankPrep)

/-- The variables of the loops of `minBankPrep`: masks and minima of the rank of the previous burst and of
    all others. -/
structure BankPrep where
  bankMask : BitVec 64
  minActAt : Nat
  bankMaskSameRank : BitVec 64
  minActAtSameRank : Nat
  sameRankMatch : Bool

/-- When a bank can issue an activate. -/
def actAt (s : DRAMCtrl) (i j : Nat) : Nat :=
  let bk := s.bank i j
  if bk.openRow = none then bk.actAllowedAt else max bk.preAllowedAt s.now + p.tRP

/-- One turn of the loops of `minBankPrep`. -/
def prepTurn (s : DRAMCtrl) (queue : List DRAMPacket) (v : BankPrep) (ij : Nat × Nat) : Except Fault BankPrep :=
  let (i, j) := ij
  let bankId := i * p.banksPerRank + j
  if queue.any fun q => s.available q && q.bankId == bankId then do
    require .minBankPrep ((s.ranks i).isAvailable = true)
    let actAt := s.actAt p i j
    if i = s.activeRank ∧ 1 < p.ranksPerChannel then
      if actAt ≤ v.minActAtSameRank then do
        let mask := if actAt < v.minActAtSameRank ∧ s.now < v.minActAtSameRank then 0
          else v.bankMaskSameRank
        let mask ← setMask mask bankId
        .ok { v with bankMaskSameRank := mask, minActAtSameRank := actAt, sameRankMatch := true }
      else .ok v
    else if actAt ≤ v.minActAt then do
      let mask := if actAt < v.minActAt ∧ s.now < v.minActAt then 0 else v.bankMask
      let mask ← setMask mask bankId
      .ok { v with bankMask := mask, minActAt := actAt }
    else .ok v
  else .ok v

/-- The banks of all ranks, in the order of the loops. -/
def bankPairs : List (Nat × Nat) :=
  (List.range p.ranksPerChannel).flatMap fun i => (List.range p.banksPerRank).map fun j => (i, j)

def minBankPrep (s : DRAMCtrl) (queue : List DRAMPacket) (switchedCmdType : Bool) : Except Fault (BitVec 64) := do
  let v ← (bankPairs p).foldlM (prepTurn p s queue) ⟨0, maxTick, 0, maxTick, false⟩
  let minCmdAt := tickSub (tickSub s.busBusyUntil p.tCL) p.tRCD
  if v.bankMask = 0 ∨ (switchedCmdType = false ∧ v.sameRankMatch = true ∧ v.minActAtSameRank ≤ minCmdAt) then
    .ok v.bankMaskSameRank
  else .ok v.bankMask

/-- The variables of the loop of `reorderQueue`; what is selected is a position in the queue. -/
structure Reorder where
  earliestBanks : BitVec 64
  foundEarliestPkt : Bool
  foundPreppedDiffRankPkt : Bool
  selected : Option Nat

/-- The mask of the earliest banks, computed when it is needed. -/
def earliest (s : DRAMCtrl) (queue : List DRAMPacket) (switchedCmdType : Bool) (v : Reorder) :
    Except Fault (BitVec 64) :=
  if v.earliestBanks = 0 then s.minBankPrep p queue switchedCmdType else .ok v.earliestBanks

/-- `bits(earliest_banks, bankId, bankId)`, as a condition. -/
def inMask (mask : BitVec 64) (bankId : Nat) : Except Fault Bool :=
  if bankId < 64 then .ok (bits mask bankId bankId != 0) else .error (.undefined .chooseNext)

/-- The loop of `reorderQueue` over the rest of the queue, from position `i` on. -/
def reorderLoop (s : DRAMCtrl) (queue : List DRAMPacket) (switchedCmdType : Bool) :
    Nat → List DRAMPacket → Reorder → Except Fault (Option Nat)
  | _, [], v => .ok v.selected
  | i, q :: rest, v =>
    if !s.available q then reorderLoop s queue switchedCmdType (i + 1) rest v
    else if (s.bank q.rank q.bank).openRow = some q.row then
      if q.rank = s.activeRank ∨ switchedCmdType = true then .ok (some i)
      else if v.foundPreppedDiffRankPkt then
        reorderLoop s queue switchedCmdType (i + 1) rest v
      else
        reorderLoop s queue switchedCmdType (i + 1) rest
          { v with selected := some i, foundPreppedDiffRankPkt := true }
    else if v.foundEarliestPkt || v.foundPreppedDiffRankPkt then
      reorderLoop s queue switchedCmdType (i + 1) rest v
    else do
      let mask ← s.earliest p queue switchedCmdType v
      let hit ← inMask mask q.bankId
      reorderLoop s queue switchedCmdType (i + 1) rest
        (if hit then { v with earliestBanks := mask, selected := some i, foundEarliestPkt := true }
        else { v with earliestBanks := mask })

end DRAMCtrl

/-- Move an element to the front. -/
def toFront (queue : List DRAMPacket) (i : Nat) : List DRAMPacket :=
  (queue[i]?).toList ++ queue.eraseIdx i

namespace DRAMCtrl

/-- `reorderQueue(queue, switched_cmd_type)`; returns the queue with the choice in front, if there is
    one. -/
def reorderQueue (s : DRAMCtrl) (queue : List DRAMPacket) (switchedCmdType : Bool) :
    Except Fault (Option (List DRAMPacket)) := do
  let selected ← s.reorderLoop p queue switchedCmdType 0 queue ⟨0, false, false, none⟩
  .ok (selected.map (toFront queue))

/-- `chooseNext(queue, switched_cmd_type)`; returns the queue with the choice in front, if there is
    one. -/
def chooseNext (s : DRAMCtrl) (queue : List DRAMPacket) (switchedCmdType : Bool) :
    Except Fault (Option (List DRAMPacket)) := do
  require .chooseNext (queue ≠ [])
  match queue with
  | [q] => .ok (if s.available q then some [q] else none)
  | _ =>
    match p.memSchedPolicy with
    | .fcfs => .ok ((queue.findIdx? s.available).map (toFront queue))
    | .frfcfs => s.reorderQueue p queue switchedCmdType

/-- The controller after its constructor, at some tick. -/
def new (tick : Nat) : DRAMCtrl where
  now := tick
  agenda := []
  ranks := fun _ => .new
  busBusyUntil := 0
  activeRank := 0
  writeQueue := []
  answered := []

end DRAMCtrl

end NvpSim.Dram
