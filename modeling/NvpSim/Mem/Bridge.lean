/-
  The bridge between two crossbars (`mem/bridge.{hh,cc}`): two transmit lists with a send event each, a count of
  the responses that are owed, and ONE flag for a requester that was refused.

  Calls NEST: a peer that is sent a packet or a retry may call the bridge again before it returns.  So
  `trySendTiming` is cut at the send into what is before (`trySendTiming`) and what is after a send that
  succeeded (`reqSent`, `respSent`), and a `BridgeRun` remembers which sends are open.

  `clockEdge` comes with the call, as some tick that is not in the past; `none` is a failed assertion.
-/
import NvpSim.Mem.Packet
import NvpSim.Lib.Run

namespace NvpSim.Mem

open NvpSim.Lib

/-- `expects_response`: the packet needs a response, which does not come from elsewhere. -/
def expectsResponse (pkt : Packet) : Bool := pkt.cmd.needsResponse && !pkt.memInhibitAsserted

/-! ## A transmit list -/

/-- `Bridge::DeferredPacket`. -/
structure BridgeDeferred where
  tick : Nat
  pkt : Packet

/-- The transmit list of a port, and the tick of its `sendEvent` if scheduled. -/
structure TransmitQueue where
  transmitList : List BridgeDeferred
  sendEvent : Option Nat

namespace TransmitQueue

/-- `bridge.schedule(sendEvent, when)`. -/
def schedule (q : TransmitQueue) (now when_ : Nat) : Option TransmitQueue :=
  if q.sendEvent = none ∧ now ≤ when_ then some { q with sendEvent := some when_ } else none

/-- What `schedTimingReq` and `schedTimingResp` share: a packet at the head gets an event. -/
def schedTiming (q : TransmitQueue) (now : Nat) (pkt : Packet) (when_ : Nat) : Option TransmitQueue :=
  (if q.transmitList.isEmpty then q.schedule now when_ else some q).map fun q =>
    { q with transmitList := q.transmitList ++ [⟨when_, pkt⟩] }

/-- `trySendTiming()` up to the send: the packet that the peer gets. -/
def trySendTiming (q : TransmitQueue) (now : Nat) : Option Packet :=
  match q.transmitList with
  | [] => none
  | d :: _ => if d.tick ≤ now then some d.pkt else none

/-- `trySendTiming()` after a send that succeeded: the packet is gone, and the next one gets an event. -/
def popFront (q : TransmitQueue) (now clockEdge : Nat) : Option TransmitQueue :=
  match q.transmitList with
  | [] => none
  | _ :: [] => some { q with transmitList := [] }
  | _ :: next :: rest =>
    { q with transmitList := next :: rest }.schedule now (max next.tick clockEdge)

end TransmitQueue

/-! ## The bridge -/

/-- The sizes of the two queues. -/
structure BridgeParams where
  reqQueueLimit : Nat
  respQueueLimit : Nat
  deriving DecidableEq, Repr

/-- `Bridge`: the request queue is at the master port; the responses, their count and the flag are at the
    slave port. -/
structure Bridge where
  master : TransmitQueue
  slave : TransmitQueue
  outstandingResponses : Nat
  retryReq : Bool

namespace Bridge

variable (p : BridgeParams)

/-- The bridge as constructed. -/
def init : Bridge := ⟨⟨[], none⟩, ⟨[], none⟩, 0, false⟩

def respQueueFull (b : Bridge) : Bool := b.outstandingResponses == p.respQueueLimit

def reqQueueFull (b : Bridge) : Bool := b.master.transmitList.length == p.reqQueueLimit

def schedTimingReq (b : Bridge) (now : Nat) (pkt : Packet) (when_ : Nat) : Option Bridge :=
  if b.master.transmitList.length ≠ p.reqQueueLimit then
    (b.master.schedTiming now pkt when_).map fun q => { b with master := q }
  else none

def schedTimingResp (b : Bridge) (now : Nat) (pkt : Packet) (when_ : Nat) : Option Bridge :=
  (b.slave.schedTiming now pkt when_).map fun q => { b with slave := q }

/-- `BridgeMasterPort::recvTimingResp(pkt)`; all checks were done when the request was accepted. -/
def recvTimingResp (b : Bridge) (now : Nat) (pkt : Packet) (clockEdge : Nat) : Option Bridge :=
  b.schedTimingResp now pkt clockEdge

/-- `BridgeSlavePort::recvTimingReq(pkt)`, and whether the request is accepted. -/
def recvTimingReq (b : Bridge) (now : Nat) (pkt : Packet) (clockEdge : Nat) : Option (Bridge × Bool) :=
  if b.retryReq then none
  else if b.reqQueueFull p then some ({ b with retryReq := true }, false)
  else if expectsResponse pkt then
    if b.respQueueFull p then some ({ b with retryReq := true }, false)
    else
      let b := { b with outstandingResponses := b.outstandingResponses + 1 }
      (b.schedTimingReq p now pkt clockEdge).map (·, true)
  else (b.schedTimingReq p now pkt clockEdge).map (·, true)

/-- `retryStalledReq()`, and whether `sendRetryReq` is called. -/
def retryStalledReq (b : Bridge) : Bridge × Bool :=
  if b.retryReq then ({ b with retryReq := false }, true) else (b, false)

/-- The rest of `BridgeMasterPort::trySendTiming()` after `sendTimingReq` has returned true. -/
def reqSent (b : Bridge) (now clockEdge : Nat) : Option (Bridge × Bool) :=
  (b.master.popFront now clockEdge).map fun q => { b with master := q }.retryStalledReq

/-- The rest of `BridgeSlavePort::trySendTiming()` after `sendTimingResp` has returned true. -/
def respSent (b : Bridge) (now clockEdge : Nat) : Option (Bridge × Bool) :=
  if b.outstandingResponses ≠ 0 then
    (b.slave.popFront now clockEdge).map fun q =>
      let b := { b with slave := q, outstandingResponses := b.outstandingResponses - 1 }
      if !b.reqQueueFull p && b.retryReq then ({ b with retryReq := false }, true) else (b, false)
  else none

end Bridge

/-! ## Runs -/

/-- The traffic through a port of the bridge: the packet that the peer is just being given, whether it
    refused the last one and still owes a retry, and the packets accepted and forwarded so far. -/
structure Traffic where
  sending : Option Packet
  refused : Bool
  accepted : List Packet
  forwarded : List Packet

/-- A bridge in a run: the time, whether the requester was refused and waits for a retry, and the traffic in
    both directions. -/
structure BridgeRun where
  bridge : Bridge
  now : Nat
  stalled : Bool
  req : Traffic
  resp : Traffic

/-- A call of a peer, a send event, the return of an open send, or time going on. -/
inductive BridgeCall where
  | recvTimingReq (pkt : Packet) (clockEdge : Nat)
  | recvTimingResp (pkt : Packet) (clockEdge : Nat)
  | reqEvent
  | respEvent
  | recvReqRetry
  | recvRespRetry
  | reqReturn (success : Bool) (clockEdge : Nat)
  | respReturn (success : Bool) (clockEdge : Nat)
  | tick (t : Nat)

namespace Traffic

def none : Traffic := ⟨.none, false, [], []⟩

def accept (t : Traffic) (pkt : Packet) : Traffic := { t with accepted := t.accepted ++ [pkt] }

/-- The peer is called with a packet. -/
def call (t : Traffic) (pkt : Packet) : Traffic := { t with sending := some pkt, refused := false }

/-- The peer has taken the packet. -/
def forward (t : Traffic) : Traffic :=
  { t with sending := .none, forwarded := t.forwarded ++ t.sending.toList }

/-- The peer has refused the packet. -/
def refuse (t : Traffic) : Traffic := { t with sending := .none, refused := true }

/-- The packets that the peer has seen and may have taken. -/
def handed (t : Traffic) : List Packet := t.forwarded ++ t.sending.toList

end Traffic

namespace BridgeRun

variable (p : BridgeParams)

def start : BridgeRun := ⟨.init, 0, false, .none, .none⟩

/-- The send event of a port fires, or its peer calls for a retry. -/
def callReq (s : BridgeRun) (q : TransmitQueue) : Option BridgeRun :=
  (q.trySendTiming s.now).map fun pkt =>
    { s with bridge := { s.bridge with master := q }, req := s.req.call pkt }

def callResp (s : BridgeRun) (q : TransmitQueue) : Option BridgeRun :=
  (q.trySendTiming s.now).map fun pkt =>
    { s with bridge := { s.bridge with slave := q }, resp := s.resp.call pkt }

/-- One call. -/
def step (s : BridgeRun) : BridgeCall → Option BridgeRun
  | .recvTimingReq pkt clockEdge =>
    (s.bridge.recvTimingReq p s.now pkt clockEdge).map fun (b, accepted) =>
      { s with bridge := b, stalled := !accepted, req := if accepted then s.req.accept pkt else s.req }
  | .recvTimingResp pkt clockEdge =>
    (s.bridge.recvTimingResp s.now pkt clockEdge).map fun b =>
      { s with bridge := b, resp := s.resp.accept pkt }
  | .reqEvent => s.callReq { s.bridge.master with sendEvent := none }
  | .respEvent => s.callResp { s.bridge.slave with sendEvent := none }
  | .recvReqRetry => s.callReq s.bridge.master
  | .recvRespRetry => s.callResp s.bridge.slave
  | .reqReturn true clockEdge =>
    (s.bridge.reqSent s.now clockEdge).map fun (b, retry) =>
      { s with bridge := b, stalled := s.stalled && !retry, req := s.req.forward }
  | .reqReturn false _ => some { s with req := s.req.refuse }
  | .respReturn true clockEdge =>
    (s.bridge.respSent p s.now clockEdge).map fun (b, retry) =>
      { s with bridge := b, stalled := s.stalled && !retry, resp := s.resp.forward }
  | .respReturn false _ => some { s with resp := s.resp.refuse }
  | .tick t => some { s with now := t }

/-- What the peers, the clock and the event queue do: a refused requester waits for the retry; there is
    one response for each forwarded request that expects one, which may come before the send has
    returned, but not if that send is refused; a retry comes only from a peer that refused; and no event
    is passed over. -/
def Legal (s : BridgeRun) : BridgeCall → Prop
  | .recvTimingReq _ clockEdge => s.stalled = false ∧ s.now ≤ clockEdge
  | .recvTimingResp _ clockEdge =>
    s.resp.accepted.length < s.req.handed.countP expectsResponse ∧ s.now ≤ clockEdge
  | .reqEvent => s.bridge.master.sendEvent = some s.now
  | .respEvent => s.bridge.slave.sendEvent = some s.now
  | .recvReqRetry => s.req.refused = true
  | .recvRespRetry => s.resp.refused = true
  | .reqReturn success clockEdge => s.req.sending.isSome = true ∧ s.now ≤ clockEdge ∧
    (success = false → s.resp.accepted.length ≤ s.req.forwarded.countP expectsResponse)
  | .respReturn _ clockEdge => s.resp.sending.isSome = true ∧ s.now ≤ clockEdge
  | .tick t => s.now ≤ t ∧ (∀ e ∈ s.bridge.master.sendEvent, t ≤ e) ∧
    ∀ e ∈ s.bridge.slave.sendEvent, t ≤ e

instance (s : BridgeRun) : (c : BridgeCall) → Decidable (s.Legal c)
  | .recvTimingReq _ _ | .recvTimingResp _ _ => inferInstanceAs (Decidable (_ ∧ _))
  | .reqEvent | .respEvent => inferInstanceAs (Decidable (_ = some _))
  | .recvReqRetry | .recvRespRetry => inferInstanceAs (Decidable (_ = true))
  | .reqReturn _ _ => inferInstanceAs (Decidable (_ ∧ _ ∧ (_ → _)))
  | .respReturn _ _ => inferInstanceAs (Decidable (_ ∧ _))
  | .tick _ => inferInstanceAs (Decidable (_ ∧ _ ∧ _))

end BridgeRun

end NvpSim.Mem
