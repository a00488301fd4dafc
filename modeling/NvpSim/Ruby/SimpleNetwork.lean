/-
  Ruby's simple network: how `Topology` makes the links and routing tables (`mem/ruby/network/Topology.cc`), and
  how a `PerfectSwitch` sends a message on (`mem/ruby/network/simple/PerfectSwitch.cc`).

  Node numbers stand in a row: the links into the network, then the queues out of it, one of each for every
  machine, and then the routers.  A switch goes through its links in some order, gives each one those of the
  remaining destinations that it carries, and asserts that none is left.

  Distances are `int`s, whose addition wraps around.
-/
import NvpSim.Ruby.NetDest
import NvpSim.Lib.ShortestPath

namespace NvpSim.Ruby

open NvpSim.Lib NvpSim.Lib.ShortestPath

def infiniteLatency : Int := 10000

/-- The sum of two `int`s of 32 bits. -/
def plusInt (a b : Int) : Int := Int.bmod (a + b) (2 ^ 32)

/-- A link between a machine and a router. -/
structure ExtLink where
  extNode : Nat
  intNode : Nat
  weight : Int
  deriving DecidableEq, Repr

/-- A link between two routers. -/
structure IntLink where
  nodeA : Nat
  nodeB : Nat
  weight : Int
  deriving DecidableEq, Repr

/-- `Topology`: the number of machines of each type, the routers, and the links between what exists. -/
structure Topology where
  counts : List Nat
  numberOfSwitches : Nat
  extLinks : List ExtLink
  intLinks : List IntLink
  ext_size : extLinks.length = counts.sum
  ext_exists : ∀ l ∈ extLinks, l.extNode < counts.sum ∧ l.intNode < numberOfSwitches
  int_exists : ∀ l ∈ intLinks, l.nodeA < numberOfSwitches ∧ l.nodeB < numberOfSwitches

namespace Topology

variable (t : Topology)

/-- `m_nodes`. -/
def nodes : Nat := t.counts.sum

/-- The number of a machine among all: `MachineType_base_number(type) + num`. -/
def nodeNumber (type num : Nat) : Nat := (t.counts.take type).sum + num

/-- All machines, type by type. -/
def machines : List (Nat × Nat) :=
  (List.range t.counts.length).flatMap fun type =>
    (List.range (t.counts.getD type 0)).map fun num => (type, num)

/-- The calls of `addLink` in the constructor: source, destination, weight. -/
def addedLinks : List (Nat × Nat × Int) :=
  (t.extLinks.flatMap fun l =>
    [(l.extNode, l.intNode + 2 * t.nodes, l.weight), (l.intNode + 2 * t.nodes, l.extNode + t.nodes, l.weight)]) ++
  t.intLinks.flatMap fun l =>
    [(l.nodeA + 2 * t.nodes, l.nodeB + 2 * t.nodes, l.weight),
      (l.nodeB + 2 * t.nodes, l.nodeA + 2 * t.nodes, l.weight)]

/-- `m_link_map`: the link that was added last. -/
def link (src dest : Nat) : Option Int :=
  (t.addedLinks.reverse.find? fun l => l.1 = src ∧ l.2.1 = dest).map (·.2.2)

/-- `num_switches`, one more than the highest number of a link's end. -/
def numSwitches : Nat := t.addedLinks.foldl (fun m l => max (max m l.1) l.2.1) 0 + 1

/-- `topology_weights`. -/
def weights (i j : Nat) : Int :=
  match t.link i j with
  | some weight => weight
  | none => if i = j then 0 else infiniteLatency

/-- `shortest_path(topology_weights)`; the number of passes is bounded by the sum of all weights. -/
def shortestPath : Option Table :=
  extend t.numSwitches plusInt (total t.numSwitches t.weights + 1) t.weights

def linkIsShortestPathToNode (dist : Table) (src next final : Nat) : Bool :=
  plusInt (t.weights src next) (dist next final) == dist src final

/-- `shortest_path_to_node(src, next, weights, dist)`; the loop's `d` is the number of the machine. -/
def shortestPathToNode (dist : Table) (src next : Nat) : Option NetDest :=
  t.machines.foldlM (fun result mach =>
    if t.linkIsShortestPathToNode dist src next (t.nodeNumber mach.1 mach.2 + t.nodes) then
      result.add mach.1 mach.2
    else some result) (.new t.counts)

/-- `makeLink(net, src, dest, routing_table_entry)`: the link, if it is one that the network has. -/
def makeLink (src dest : Nat) (entry : NetDest) : Option (Nat × Nat × NetDest) :=
  if 2 * t.nodes ≤ src ∨ 2 * t.nodes ≤ dest then
    if src < t.nodes then some (src, dest, entry)
    else if dest < 2 * t.nodes then
      if t.nodes ≤ dest then some (src, dest, entry) else none
    else if 2 * t.nodes ≤ src then some (src, dest, entry) else none
  else none

/-- The links of `createLinks`. -/
def madeLinks : List (Nat × Nat) :=
  (pairs t.numSwitches).filter fun p =>
    0 < t.weights p.1 p.2 ∧ t.weights p.1 p.2 ≠ infiniteLatency

/-- `createLinks(net)`: all links with their routing table entries. -/
def createLinks : Option (List (Nat × Nat × NetDest)) :=
  t.shortestPath.bind fun dist =>
    t.madeLinks.mapM fun p =>
      (t.shortestPathToNode dist p.1 p.2).bind fun entry => t.makeLink p.1 p.2 entry

end Topology

/-! ## Switches -/

/-- The ports out of a switch, in the order in which they were added: where the link goes, and its
    routing table entry. -/
def outPorts (links : List (Nat × Nat × NetDest)) (src : Nat) : List (Nat × NetDest) :=
  (links.filter fun l => l.1 = src).map (·.2)

/-- The loop of `operateVnet` over the links of a switch: where copies go and for whom, and the destinations
    that are left. -/
def routeLoop (ports : List (Nat × NetDest)) : List Nat → NetDest → Option (List (Nat × NetDest) × NetDest)
  | [], msgDsts => some ([], msgDsts)
  | link :: order, msgDsts =>
    (ports[link]?).bind fun port =>
      (msgDsts.intersectionIsNotEmpty port.2).bind fun meets =>
        if !meets then routeLoop ports order msgDsts
        else
          (msgDsts.and port.2).bind fun dsts =>
            (msgDsts.removeNetDest port.2).bind fun rest =>
              (routeLoop ports order rest).map fun r => ((port.1, dsts) :: r.1, r.2)

/-- The parameters of the network: adaptive routing, the number of virtual networks and which of them are
    ordered, and the queues of each machine for what comes out of the network (`false` where there is
    none for a virtual network). -/
structure SimpleNetwork where
  adaptiveRouting : Bool
  virtualNetworks : Nat
  isVNetOrdered : Nat → Bool
  fromNetQueues : Nat → List Bool

namespace SimpleNetwork

variable (net : SimpleNetwork) (t : Topology)

/-- The number of buffers of the port to a node: as many as there are queues at the other end. -/
def portBuffers (dest : Nat) : Nat :=
  if dest < 2 * t.nodes then (net.fromNetQueues (dest - t.nodes)).length else net.virtualNetworks

/-- The order in which the links are looked at.  With adaptive routing it follows from the lengths of all
    queues of all ports and from random numbers, and may be any; `sorted` is what it turns out to be. -/
def linkOrder (ports : List (Nat × NetDest)) (vnet : Nat) (sorted : List Nat) : Option (List Nat) :=
  if net.adaptiveRouting && !net.isVNetOrdered vnet then
    if ∀ p ∈ ports, net.virtualNetworks ≤ net.portBuffers t p.1 then some sorted else none
  else some (List.range ports.length)

/-- What `operateVnet` does with a message for which there is room: copies for its output links. -/
def operateVnet (ports : List (Nat × NetDest)) (vnet : Nat) (sorted : List Nat) (msgDsts : NetDest) :
    Option (List (Nat × NetDest)) :=
  (net.linkOrder t ports vnet sorted).bind fun order =>
    (routeLoop ports order msgDsts).bind fun (outputs, left) =>
      if left.count = 0 ∧ ∀ o ∈ outputs, vnet < net.portBuffers t o.1 then some outputs else none

end SimpleNetwork

/-! ## Runs -/

/-- A copy of a message on its way: the switch at which it arrives, and the destinations it is for. -/
structure MsgCopy where
  msg : Nat
  vnet : Nat
  switch : Nat
  dsts : NetDest

/-- The network in a run: the copies on their way, what the machines have received, and the messages sent so
    far with their destinations. -/
structure NetRun where
  flight : List MsgCopy
  received : List (Nat × Nat)
  sent : List (Nat × List (Nat × Nat))

/-- A message is sent, and enters at a router; or a switch sends one of its messages on. -/
inductive NetAct where
  | send (msg vnet router : Nat) (dests : List (Nat × Nat))
  | hop (k : Nat) (sorted : List Nat)
  deriving DecidableEq, Repr

namespace NetRun

variable (net : SimpleNetwork) (t : Topology) (links : List (Nat × Nat × NetDest))

def start : NetRun := ⟨[], [], []⟩

/-- A copy is put on a link: out of the network, or to a switch. -/
def put (msg vnet : Nat) (s : NetRun) (o : Nat × NetDest) : NetRun :=
  if o.1 < 2 * t.nodes then { s with received := s.received ++ [(msg, o.1 - t.nodes)] }
  else { s with flight := s.flight ++ [⟨msg, vnet, o.1, o.2⟩] }

/-- One step. -/
def step (s : NetRun) : NetAct → Option NetRun
  | .send msg vnet router dests =>
    (dests.foldlM (fun (nd : NetDest) d => nd.add d.1 d.2) (.new t.counts)).map fun dsts =>
      { s with flight := s.flight ++ [⟨msg, vnet, router + 2 * t.nodes, dsts⟩], sent := s.sent ++ [(msg, dests)] }
  | .hop k sorted =>
    (s.flight[k]?).bind fun c =>
      (net.operateVnet t (outPorts links c.switch) c.vnet sorted c.dsts).map fun outputs =>
        outputs.foldl (put t c.msg c.vnet) { s with flight := s.flight.eraseIdx k }

/-- Messages are sent once, to machines that have a queue for them; a switch looks at each of its links
    once. -/
def Legal (s : NetRun) : NetAct → Prop
  | .send msg vnet router dests =>
    (∀ m ∈ s.sent, m.1 ≠ msg) ∧ router < t.numberOfSwitches ∧ vnet < net.virtualNetworks ∧
      ∀ d ∈ dests, d ∈ t.machines ∧ (net.fromNetQueues (t.nodeNumber d.1 d.2))[vnet]? = some true
  | .hop k sorted => k < s.flight.length ∧
      ∀ c ∈ s.flight[k]?, sorted.Perm (List.range (outPorts links c.switch).length)

instance (s : NetRun) (a : NetAct) : Decidable (s.Legal net t links a) :=
  match a with
  | .send _ _ _ _ => inferInstanceAs (Decidable (_ ∧ _ ∧ _ ∧ _))
  | .hop _ _ => inferInstanceAs (Decidable (_ ∧ _))

end NetRun

end NvpSim.Ruby
