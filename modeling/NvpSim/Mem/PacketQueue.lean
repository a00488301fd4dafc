/-
  `PacketQueue`: packets that wait for their tick and are then sent to the peer, one at a time.

  The functions of `mem/packet_queue.cc`, for packets of any type; `none` is a failed assertion, or the panic of
  a queue of more than 100 packets.  `sendDeferredPacket` is cut at `sendTiming`: `sendBegin` takes the front
  packet off the list, `sendEnd` deals with the answer, and in between `schedSendTiming` may be called again.
-/
import NvpSim.Lib.Run
import NvpSim.Sim.Event

namespace NvpSim.Mem

open NvpSim.Lib NvpSim.Sim

structure DeferredPacket (Pkt : Type) where
  tick : Nat
  pkt : Pkt

/-- `PacketQueue`: the members its functions read, and the tick of `sendEvent` if scheduled. -/
structure PacketQueue (Pkt : Type) where
  transmitList : List (DeferredPacket Pkt)
  sendEvent : Option Nat
  drainManager : Bool
  waitingOnRetry : Bool

namespace PacketQueue

variable {Pkt : Type}

def init : PacketQueue Pkt := ⟨[], none, false, false⟩

def deferredPacketReadyTime (q : PacketQueue Pkt) : Nat :=
  match q.transmitList with
  | [] => maxTick
  | front :: _ => front.tick

def deferredPacketReady (q : PacketQueue Pkt) (now : Nat) : Bool :=
  match q.transmitList with
  | [] => false
  | front :: _ => front.tick ≤ now

def schedSendEvent (q : PacketQueue Pkt) (now when_ : Nat) : Option (PacketQueue Pkt) :=
  if q.waitingOnRetry then
    if q.sendEvent.isSome then none else some q
  else if when_ ≠ maxTick then
    -- one tick in the future at the earliest
    let t := max when_ (now + 1)
    match q.sendEvent with
    | none => some { q with sendEvent := some t }
    | some e => some (if t < e then { q with sendEvent := some t } else q)
  else
    some { q with
      drainManager := q.drainManager && !(q.transmitList.isEmpty && q.sendEvent.isNone) }

/-- The insertion of `schedSendTiming` behind the front: after all packets that are not later. -/
def insertSorted (dp : DeferredPacket Pkt) : List (DeferredPacket Pkt) → List (DeferredPacket Pkt)
  | [] => [dp]
  | i :: rest => if i.tick ≤ dp.tick then i :: insertSorted dp rest else dp :: i :: rest

/-- `transmitList.back().tick`. -/
def backTick : List (DeferredPacket Pkt) → Nat
  | [] => 0
  | [back] => back.tick
  | _ :: rest => backTick rest

/-- The tick of a packet: with `force_order`, not before that of the last one. -/
def forcedTick (list : List (DeferredPacket Pkt)) (when_ : Nat) (forceOrder : Bool) : Nat :=
  if forceOrder && !list.isEmpty then max when_ (backTick list) else when_

def schedSendTiming (isExpressSnoop : Pkt → Bool) (q : PacketQueue Pkt) (now : Nat) (pkt : Pkt)
    (when_ : Nat) (forceOrder : Bool) : Option (PacketQueue Pkt) :=
  if now ≤ when_ ∧ isExpressSnoop pkt = false ∧ q.transmitList.length ≤ 100 then
    let t := forcedTick q.transmitList when_ forceOrder
    match q.transmitList with
    | [] => { q with transmitList := [⟨t, pkt⟩] }.schedSendEvent now t
    | front :: rest =>
      if t < front.tick then
        if forceOrder then none
        else { q with transmitList := ⟨t, pkt⟩ :: front :: rest }.schedSendEvent now t
      else if backTick (front :: rest) ≤ t then
        some { q with transmitList := front :: rest ++ [⟨t, pkt⟩] }
      else if forceOrder then none
      else some { q with transmitList := front :: insertSorted ⟨t, pkt⟩ rest }
  else none

/-- `sendDeferredPacket()` up to `sendTiming(dp.pkt)`. -/
def sendBegin (q : PacketQueue Pkt) (now : Nat) : Option (PacketQueue Pkt × DeferredPacket Pkt) :=
  if q.waitingOnRetry = false ∧ q.deferredPacketReady now then
    match q.transmitList with
    | [] => none
    | dp :: rest => some ({ q with transmitList := rest }, dp)
  else none

/-- `sendDeferredPacket()` after `sendTiming` returned. -/
def sendEnd (q : PacketQueue Pkt) (now : Nat) (dp : DeferredPacket Pkt) (success : Bool) : Option (PacketQueue Pkt) :=
  let q := { q with waitingOnRetry := !success }
  if success then q.schedSendEvent now q.deferredPacketReadyTime
  else some { q with transmitList := dp :: q.transmitList }

def retry (q : PacketQueue Pkt) (now : Nat) : Option (PacketQueue Pkt × DeferredPacket Pkt) :=
  if q.waitingOnRetry then { q with waitingOnRetry := false }.sendBegin now else none

def processSendEvent (q : PacketQueue Pkt) (now : Nat) : Option (PacketQueue Pkt × DeferredPacket Pkt) :=
  if q.waitingOnRetry then none else q.sendBegin now

def drain (q : PacketQueue Pkt) : PacketQueue Pkt :=
  if q.transmitList.isEmpty then q else { q with drainManager := true }

end PacketQueue

/-! ## Runs -/

/-- A packet with the number of its `schedSendTiming` call and whether that forced the order. -/
structure Numbered (Pkt : Type) where
  pkt : Pkt
  seq : Nat
  forced : Bool

/-- A queue in a run: the time, the packet that is just being sent, how many packets were scheduled
    and which of them, and those that the peer took. -/
structure QueueRun (Pkt : Type) where
  queue : PacketQueue (Numbered Pkt)
  now : Nat
  inFlight : Option (DeferredPacket (Numbered Pkt))
  count : Nat
  accepted : List (Numbered Pkt)
  sent : List (Numbered Pkt)

/-- A call, an event, the answer of the peer, or time going on. -/
inductive QueueCall (Pkt : Type) where
  | schedSendTiming (pkt : Pkt) (when_ : Nat) (forceOrder : Bool)
  | sendEvent
  | retry
  | answer (success : Bool)
  | drain
  | tick (t : Nat)

namespace QueueRun

variable {Pkt : Type} (isExpressSnoop : Pkt → Bool)

def start : QueueRun Pkt := ⟨PacketQueue.init, 0, none, 0, [], []⟩

/-- The queue after it has called the peer. -/
def calling (s : QueueRun Pkt) (r : PacketQueue (Numbered Pkt) × DeferredPacket (Numbered Pkt)) : QueueRun Pkt :=
  { s with queue := r.1, inFlight := some r.2 }

/-- One call. -/
def step (s : QueueRun Pkt) : QueueCall Pkt → Option (QueueRun Pkt)
  | .schedSendTiming pkt when_ forceOrder =>
    (s.queue.schedSendTiming (fun p => isExpressSnoop p.pkt) s.now ⟨pkt, s.count, forceOrder⟩ when_
      forceOrder).map fun q =>
        { s with queue := q, count := s.count + 1, accepted := s.accepted ++ [⟨pkt, s.count, forceOrder⟩] }
  | .sendEvent => ({ s.queue with sendEvent := none }.processSendEvent s.now).map s.calling
  | .retry => (s.queue.retry s.now).map s.calling
  | .answer success => s.inFlight.bind fun dp =>
    (s.queue.sendEnd s.now dp success).map fun q =>
      { s with queue := q, inFlight := none, sent := if success then s.sent ++ [dp.pkt] else s.sent }
  | .drain => some { s with queue := s.queue.drain }
  | .tick t => some { s with now := t }

/-- What callers, the peer and the event queue do: packets are not for the past and not express
    snoops, the event fires at its tick, the peer sends a retry only if it refused, and both only
    outside of a send. -/
def Legal (s : QueueRun Pkt) : QueueCall Pkt → Prop
  | .schedSendTiming pkt when_ _ => s.now ≤ when_ ∧ isExpressSnoop pkt = false
  | .sendEvent => s.queue.sendEvent = some s.now ∧ s.inFlight.isNone = true
  | .retry => s.queue.waitingOnRetry = true ∧ s.inFlight.isNone = true
  | .answer _ => s.inFlight.isSome = true
  | .drain => True
  | .tick t => s.now ≤ t ∧ s.inFlight.isNone = true ∧ ∀ e ∈ s.queue.sendEvent, t ≤ e

/-- **When the queue keeps its order**: no packet is scheduled for `MaxTick` or onto 100 others, and a
    send is refused only if no packet got to the front of the list since it began. -/
def Benign (s : QueueRun Pkt) : QueueCall Pkt → Prop
  | .schedSendTiming _ when_ _ => when_ < maxTick ∧ s.queue.transmitList.length ≤ 100
  | .answer success => success = false → s.queue.sendEvent = none
  | _ => True

instance (s : QueueRun Pkt) : (c : QueueCall Pkt) → Decidable (Legal isExpressSnoop s c)
  | .schedSendTiming _ _ _ => inferInstanceAs (Decidable (_ ∧ _))
  | .sendEvent => inferInstanceAs (Decidable (_ ∧ _))
  | .retry => inferInstanceAs (Decidable (_ ∧ _))
  | .answer _ => inferInstanceAs (Decidable (_ = true))
  | .drain => inferInstanceAs (Decidable True)
  | .tick _ => inferInstanceAs (Decidable (_ ∧ _ ∧ _))

instance (s : QueueRun Pkt) : (c : QueueCall Pkt) → Decidable (Benign s c)
  | .schedSendTiming _ _ _ => inferInstanceAs (Decidable (_ ∧ _))
  | .sendEvent => inferInstanceAs (Decidable True)
  | .retry => inferInstanceAs (Decidable True)
  | .answer _ => inferInstanceAs (Decidable (_ → _))
  | .drain => inferInstanceAs (Decidable True)
  | .tick _ => inferInstanceAs (Decidable True)

end QueueRun

end NvpSim.Mem
