/-
  The simple network delivers every message exactly once.

  A destination is, at every moment, at ONE place: in the set of one copy on its way, or at its machine
  (`Delivers`).  That is kept because a switch PARTITIONS the set of a copy (`Routes.parts`).

  More than 32 machines of a type are too many for their sets.  And a switch that routes adaptively looks at the
  lengths of the queues of ALL virtual networks at ALL ports, although a port to a machine has buffers only up
  to the last virtual network that the machine receives from.
-/
import NvpSim.Ruby.Routing

namespace NvpSim.Ruby

open NvpSim.Lib NvpSim.Lib.ShortestPath List Option

namespace Topology

variable {t : Topology} {nd nd' : NetDest} {d : Nat × Nat} {dist : Table}

/-! ## Sets of destinations -/

/-- A set of destinations of the right size. -/
def Sized (t : Topology) (nd : NetDest) : Prop := ∃ D, NetRep t.counts nd D

variable {D : Nat → Finset Nat}

theorem carries_iff (hsmall : t.Small) (h : NetRep t.counts nd D) (hd : d ∈ t.machines) :
    nd.carries d = true ↔ d.2 ∈ D d.1 := by
  obtain ⟨n, htype, hnum⟩ := mem_machines.mp hd
  exact h.carries_iff hsmall.counts htype hnum

theorem mem_machines_of_rep (h : NetRep t.counts nd D) {type num : Nat} (hnum : num ∈ D type) :
    (type, num) ∈ t.machines :=
  mem_machines.mpr (h.lt_count hnum)

section

variable (hsmall : t.Small) (h : t.Sized nd)

include hsmall h

theorem Sized.and (h' : t.Sized nd') : ∃ u, nd.and nd' = some u ∧ t.Sized u ∧
      ∀ d ∈ t.machines, u.carries d = (nd.carries d && nd'.carries d) := by
  obtain ⟨D, hD⟩ := h
  obtain ⟨E, hE⟩ := h'
  obtain ⟨u, hu, hrep⟩ := hD.and hE
  refine ⟨u, hu, ⟨_, hrep⟩, ?_⟩
  intro d hd
  rw [Bool.eq_iff_iff, Bool.and_eq_true, carries_iff hsmall hrep hd, carries_iff hsmall hD hd,
    carries_iff hsmall hE hd, Finset.mem_inter]

theorem Sized.removeNetDest (h' : t.Sized nd') : ∃ u, nd.removeNetDest nd' = some u ∧ t.Sized u ∧
      ∀ d ∈ t.machines, u.carries d = (nd.carries d && !nd'.carries d) := by
  obtain ⟨D, hD⟩ := h
  obtain ⟨E, hE⟩ := h'
  obtain ⟨u, hu, hrep⟩ := hD.removeNetDest hE
  refine ⟨u, hu, ⟨_, hrep⟩, ?_⟩
  intro d hd
  rw [Bool.eq_iff_iff, Bool.and_eq_true, Bool.not_eq_true', ← Bool.not_eq_true,
    carries_iff hsmall hrep hd, carries_iff hsmall hD hd, carries_iff hsmall hE hd, Finset.mem_sdiff]

theorem Sized.intersectionIsNotEmpty (h' : t.Sized nd') : ∃ b, nd.intersectionIsNotEmpty nd' = some b ∧
      (b = true ↔ ∃ d ∈ t.machines, nd.carries d = true ∧ nd'.carries d = true) := by
  obtain ⟨D, hD⟩ := h
  obtain ⟨E, hE⟩ := h'
  obtain ⟨b, hb, hiff⟩ := hD.intersectionIsNotEmpty hsmall.counts hE
  refine ⟨b, hb, hiff.trans ?_⟩
  constructor
  · rintro ⟨type, num, hnum, hnum'⟩
    have hd := mem_machines_of_rep hD hnum
    exact ⟨(type, num), hd, (carries_iff hsmall hD hd).mpr hnum, (carries_iff hsmall hE hd).mpr hnum'⟩
  · rintro ⟨d, hd, hnum, hnum'⟩
    exact ⟨d.1, d.2, (carries_iff hsmall hD hd).mp hnum, (carries_iff hsmall hE hd).mp hnum'⟩

theorem Sized.count_eq_zero (hnone : ∀ d ∈ t.machines, nd.carries d = false) : nd.count = 0 := by
  obtain ⟨D, hD⟩ := h
  refine (hD.count_eq_zero hsmall.counts).mpr ?_
  intro type
  rw [Finset.eq_empty_iff_forall_notMem]
  intro num hnum
  have hd := mem_machines_of_rep hD hnum
  have htrue := (carries_iff hsmall hD hd).mpr hnum
  rw [hnone _ hd] at htrue
  cases htrue

end

theorem sized_of_dests (hsmall : t.Small) {dests : List (Nat × Nat)} (hdests : ∀ d ∈ dests, d ∈ t.machines) :
    ∃ nd, dests.foldlM (fun (nd : NetDest) d => nd.add d.1 d.2) (.new t.counts) = some nd ∧
      t.Sized nd ∧ ∀ d ∈ t.machines, nd.carries d = decide (d ∈ dests) := by
  obtain ⟨nd, D, hfold, hrep, hmem⟩ := foldlM_add hsmall.counts (fun _ => true)
    (netRep_new t.counts) fun d hd => mem_machines.mp (hdests d hd)
  refine ⟨nd, hfold, ⟨D, hrep⟩, ?_⟩
  intro d hd
  rw [Bool.eq_iff_iff, carries_iff hsmall hrep hd, hmem]
  simp

/-! ## One switch -/

theorem toNat_split (a b : Bool) : (if (a && b) = true then 1 else 0) + (a && !b).toNat = a.toNat := by
  cases a <;> cases b <;> rfl

/-- What the loop over the links makes of a set of destinations: each machine goes to one of the copies, or is
    left if no link looked at carries it. -/
theorem routeLoop_spec (hsmall : t.Small) {ports : List (Nat × NetDest)} (hports : ∀ port ∈ ports, t.Sized port.2) :
    ∀ {order : List Nat} {nd : NetDest}, (∀ k ∈ order, k < ports.length) → t.Sized nd →
      ∃ outputs left, routeLoop ports order nd = some (outputs, left) ∧ t.Sized left ∧
        (∀ o ∈ outputs, t.Sized o.2 ∧ (∃ d ∈ t.machines, o.2.carries d = true) ∧
          ∃ port ∈ ports, port.1 = o.1 ∧ ∀ d ∈ t.machines, o.2.carries d = true →
            nd.carries d = true ∧ port.2.carries d = true) ∧ ∀ d ∈ t.machines,
          outputs.countP (fun o => o.2.carries d) + (left.carries d).toNat = (nd.carries d).toNat ∧
          (left.carries d = true → ∀ k ∈ order, ∀ port, ports[k]? = some port → port.2.carries d = false) := by
  intro order
  induction order with
  | nil =>
    intro nd _ h
    refine ⟨[], nd, rfl, h, by simp, ?_⟩
    intro d _
    exact ⟨by simp, by simp⟩
  | cons k order ih =>
    intro nd horder h
    have hrest : ∀ j ∈ order, j < ports.length := (forall_mem_cons.mp horder).2
    have hk : k < ports.length := horder k (mem_cons_self ..)
    have hport : ports[k]? = some ports[k] := getElem?_eq_getElem hk
    have hmem : ports[k] ∈ ports := getElem_mem hk
    obtain ⟨meets, hmeets, hiff⟩ := h.intersectionIsNotEmpty hsmall (hports _ hmem)
    rw [routeLoop, hport, bind_some, hmeets, bind_some]
    cases meets with
    | false =>
      -- the link carries none of the machines, and is passed over
      obtain ⟨outputs, left, hloop, hleft, hout, hparts⟩ := ih hrest h
      refine ⟨outputs, left, hloop, hleft, hout, ?_⟩
      intro d hd
      obtain ⟨hcount, hnone⟩ := hparts d hd
      refine ⟨hcount, ?_⟩
      intro hl j hj port hp
      rcases mem_cons.mp hj with rfl | hj
      · cases some.inj (hport.symm.trans hp)
        by_contra hcarry
        have hnd : nd.carries d = true := by
          rw [hl] at hcount
          cases hnd : nd.carries d with
          | true => rfl
          | false => rw [hnd] at hcount; simp at hcount
        exact absurd (hiff.mpr ⟨d, hd, hnd, by simpa using hcarry⟩) (by decide)
      · exact hnone hl j hj port hp
    | true =>
      -- the link takes what it carries, and the loop goes on with the rest
      obtain ⟨d₀, hd₀, hnd₀, hport₀⟩ := hiff.mp rfl
      obtain ⟨dsts, hdsts, hsized, hdstsIff⟩ := h.and hsmall (hports _ hmem)
      obtain ⟨rest, hrest', hsized', hrestIff⟩ := h.removeNetDest hsmall (hports _ hmem)
      obtain ⟨outputs, left, hloop, hleft, hout, hparts⟩ := ih hrest hsized'
      refine ⟨(ports[k].1, dsts) :: outputs, left, ?_, hleft, ?_, ?_⟩
      · rw [hdsts, bind_some, hrest', bind_some, hloop]
        rfl
      · intro o ho
        rcases mem_cons.mp ho with rfl | ho
        · refine ⟨hsized, ⟨d₀, hd₀, by rw [hdstsIff _ hd₀, hnd₀, hport₀]; rfl⟩, ports[k], hmem, rfl, ?_⟩
          intro d hd hcarry
          rw [hdstsIff d hd, Bool.and_eq_true] at hcarry
          exact hcarry
        · obtain ⟨hs, hne, port, hpmem, hp, hcarry⟩ := hout o ho
          refine ⟨hs, hne, port, hpmem, hp, ?_⟩
          intro d hd hod
          obtain ⟨hr, hpd⟩ := hcarry d hd hod
          rw [hrestIff d hd, Bool.and_eq_true] at hr
          exact ⟨hr.1, hpd⟩
      · intro d hd
        obtain ⟨hcount, hnone⟩ := hparts d hd
        rw [hrestIff d hd] at hcount
        constructor
        · rw [countP_cons]
          rw [hdstsIff d hd]
          have hsplit := toNat_split (nd.carries d) (ports[k].2.carries d)
          omega
        · intro hl j hj port hp
          rcases mem_cons.mp hj with rfl | hj
          · cases some.inj (hport.symm.trans hp)
            rw [hl] at hcount
            cases hpd : ports[j].2.carries d with
            | false => rfl
            | true => rw [hpd] at hcount; simp at hcount
          · exact hnone hl j hj port hp

/-- What a switch has to make of a set of destinations: copies for some machines each, that go nearer to all
    of them and leave the network only at their machine, and that share the machines out. -/
structure Routes (t : Topology) (dist : Table) (i : Nat) (dsts : NetDest)
    (outputs : List (Nat × NetDest)) : Prop where
  sized : ∀ o ∈ outputs, t.Sized o.2
  nonempty : ∀ o ∈ outputs, ∃ d ∈ t.machines, o.2.carries d = true
  carried : ∀ o ∈ outputs, ∀ d ∈ t.machines, o.2.carries d = true → dsts.carries d = true
  nearer : ∀ o ∈ outputs, ∀ d ∈ t.machines, o.2.carries d = true →
    0 ≤ dist o.1 (t.endpoint d) ∧ dist o.1 (t.endpoint d) < dist i (t.endpoint d)
  exit : ∀ o ∈ outputs, o.1 < 2 * t.nodes → ∀ d ∈ t.machines, o.2.carries d = true → o.1 = t.endpoint d
  router : ∀ o ∈ outputs, 2 * t.nodes ≤ o.1 → ∃ r < t.numberOfSwitches, o.1 = r + 2 * t.nodes
  parts : ∀ d ∈ t.machines, outputs.countP (fun o => o.2.carries d) = (dsts.carries d).toNat

/-- The tables of the links of a topology, as `createLinks` makes them. -/
structure Tables (t : Topology) (dist : Table) (links : List (Nat × Nat × NetDest)) : Prop where
  distances : t.Distances dist
  good : ∀ i, ∀ port ∈ outPorts links i, t.GoodPort dist i port
  port : ∀ i j, (i, j) ∈ t.madeLinks → ∃ nd, (j, nd) ∈ outPorts links i

variable {links : List (Nat × Nat × NetDest)} {i : Nat}

theorem GoodPort.sized {port : Nat × NetDest} (h : t.GoodPort dist i port) : t.Sized port.2 := by
  obtain ⟨D, hD, -⟩ := h.entry
  exact ⟨D, hD⟩

theorem GoodPort.carries_iff (ht : t.Connected) (hsmall : t.Small) (hdist : t.Distances dist)
    {port : Nat × NetDest} (h : t.GoodPort dist i port) (hd : d ∈ t.machines) (hend : t.endpoint d < t.numSwitches) :
    port.2.carries d = true ↔ t.weights i port.1 + dist port.1 (t.endpoint d) = dist i (t.endpoint d) := by
  obtain ⟨D, hD, hmem⟩ := h.entry
  rw [Topology.carries_iff hsmall hD hd, hmem, linkIsShortest_iff ht.positive hsmall hdist h.lt hend]
  exact ⟨fun h => h.2, fun h => ⟨hd, h⟩⟩

/-- **The loop over all links partitions.** -/
theorem routeLoop_routes (ht : t.Connected) (hsmall : t.Small) (htab : t.Tables dist links) {r : Nat}
    (hr : r < t.numberOfSwitches) {order : List Nat}
    (horder : order.Perm (List.range (outPorts links (r + 2 * t.nodes)).length)) (h : t.Sized nd) :
    ∃ outputs left, routeLoop (outPorts links (r + 2 * t.nodes)) order nd = some (outputs, left) ∧
      left.count = 0 ∧ t.Routes dist (r + 2 * t.nodes) nd outputs := by
  have hgood := htab.good (r + 2 * t.nodes)
  have hreach : ∀ d ∈ t.machines, t.Reaches dist (r + 2 * t.nodes) d :=
    fun d hd => ht.reaches htab.distances hr hd
  obtain ⟨outputs, left, hloop, hleft, hout, hparts⟩ := routeLoop_spec hsmall
    (fun port hport => (hgood port hport).sized) (fun k hk => mem_range.mp (horder.mem_iff.mp hk)) h
  -- no machine is left, since some link carries it and every link is looked at
  have hnone : ∀ d ∈ t.machines, left.carries d = false := by
    intro d hd
    by_contra hl
    obtain ⟨j, w, hmade, -, hcarry⟩ := exists_next ht.positive htab.distances hd (hreach d hd) (by omega)
    obtain ⟨nd', hport⟩ := htab.port _ _ hmade
    obtain ⟨k, hk, heq⟩ := getElem_of_mem hport
    have hfalse := (hparts d hd).2 (by simpa using hl) k
      (horder.mem_iff.mpr (mem_range.mpr hk)) (j, nd') (by rw [getElem?_eq_getElem hk, heq])
    have htrue := ((hgood _ hport).carries_iff ht hsmall htab.distances hd (hreach d hd).lt').mpr hcarry
    rw [hfalse] at htrue
    cases htrue
  have htoward : ∀ o ∈ outputs, ∃ w, t.link (r + 2 * t.nodes) o.1 = some w ∧ ∀ d ∈ t.machines, o.2.carries d = true →
        0 ≤ dist o.1 (t.endpoint d) ∧ dist o.1 (t.endpoint d) < dist (r + 2 * t.nodes) (t.endpoint d) ∧
        (o.1 < 2 * t.nodes → o.1 = t.endpoint d) := by
    intro o ho
    obtain ⟨-, -, port, hpmem, hp, hcarry⟩ := hout o ho
    obtain ⟨w, hw⟩ := (hgood port hpmem).link
    rw [← hp]
    refine ⟨w, hw, ?_⟩
    intro d hd hod
    have hshort := ((hgood port hpmem).carries_iff ht hsmall htab.distances hd (hreach d hd).lt').mp
      (hcarry d hd hod).2
    exact ⟨htab.distances.sound.nonneg (hgood port hpmem).lt (hreach d hd).lt',
      nearer ht.positive htab.distances hd (hreach d hd) (hgood port hpmem).lt hw hshort⟩
  refine ⟨outputs, left, hloop, hleft.count_eq_zero hsmall hnone, ?_, ?_, ?_, ?_, ?_, ?_, ?_⟩
  · intro o ho
    exact (hout o ho).1
  · intro o ho
    exact (hout o ho).2.1
  · intro o ho d hd hod
    obtain ⟨-, -, port, -, -, hcarry⟩ := hout o ho
    exact (hcarry d hd hod).1
  · intro o ho d hd hod
    obtain ⟨w, -, htow⟩ := htoward o ho
    exact ⟨(htow d hd hod).1, (htow d hd hod).2.1⟩
  · intro o ho hlt d hd hod
    obtain ⟨w, -, htow⟩ := htoward o ho
    exact (htow d hd hod).2.2 hlt
  · intro o ho hge
    obtain ⟨w, hw, -⟩ := htoward o ho
    have hends := addedLinks_ends (mem_of_link hw)
    exact ⟨o.1 - 2 * t.nodes, by omega, by omega⟩
  · intro d hd
    have hcount := (hparts d hd).1
    rw [hnone d hd] at hcount
    simpa using hcount

end Topology

namespace SimpleNetwork

variable {net : SimpleNetwork} {t : Topology} {dist : Table} {links : List (Nat × Nat × NetDest)}

/-- Adaptive routing is on only if all virtual networks are ordered, or if every machine has its queues up to
    the last virtual network. -/
def Buffered (net : SimpleNetwork) (t : Topology) : Prop :=
  net.adaptiveRouting = true → (∀ v < net.virtualNetworks, net.isVNetOrdered v = true) ∨
      ∀ node < t.nodes, net.virtualNetworks ≤ (net.fromNetQueues node).length

instance : Decidable (net.Buffered t) :=
  inferInstanceAs (Decidable (_ → (∀ _, _ → _) ∨ ∀ _, _ → _))

theorem linkOrder_perm (hbuf : net.Buffered t) (htab : t.Tables dist links) {i vnet : Nat}
    (hvnet : vnet < net.virtualNetworks) {sorted : List Nat}
    (hsorted : sorted.Perm (List.range (outPorts links i).length)) :
    ∃ order, net.linkOrder t (outPorts links i) vnet sorted = some order ∧
      order.Perm (List.range (outPorts links i).length) := by
  unfold linkOrder
  split
  next hadaptive =>
    rw [Bool.and_eq_true] at hadaptive
    refine ⟨sorted, ?_, hsorted⟩
    rw [if_pos]
    intro port hport
    obtain ⟨w, hw⟩ := (htab.good i port hport).link
    unfold portBuffers
    split
    next hlt =>
      rcases hbuf hadaptive.1 with hordered | hqueues
      · rw [hordered vnet hvnet] at hadaptive
        cases hadaptive.2
      · exact hqueues _ (by omega)
    next => exact Nat.le_refl _
  next => exact ⟨_, rfl, List.Perm.refl _⟩

/-- **A switch sends a message on.** -/
theorem operateVnet_spec (ht : t.Connected) (hsmall : t.Small) (hbuf : net.Buffered t)
    (htab : t.Tables dist links) {r vnet : Nat} (hr : r < t.numberOfSwitches)
    (hvnet : vnet < net.virtualNetworks) {sorted : List Nat}
    (hsorted : sorted.Perm (List.range (outPorts links (r + 2 * t.nodes)).length)) {dsts : NetDest} (h : t.Sized dsts)
    (hqueue : ∀ d ∈ t.machines, dsts.carries d = true →
      (net.fromNetQueues (t.nodeNumber d.1 d.2))[vnet]? = some true) :
    ∃ outputs, net.operateVnet t (outPorts links (r + 2 * t.nodes)) vnet sorted dsts = some outputs ∧
      t.Routes dist (r + 2 * t.nodes) dsts outputs := by
  obtain ⟨order, horder, hperm⟩ := linkOrder_perm hbuf htab hvnet hsorted
  obtain ⟨outputs, left, hloop, hleft, hroutes⟩ := Topology.routeLoop_routes ht hsmall htab hr hperm h
  refine ⟨outputs, ?_, hroutes⟩
  unfold operateVnet
  rw [horder, bind_some, hloop]
  refine if_pos ⟨hleft, ?_⟩
  intro o ho
  unfold portBuffers
  split
  next hlt =>
    obtain ⟨d, hd, hod⟩ := hroutes.nonempty o ho
    have hexit := hroutes.exit o ho hlt d hd hod
    have hsome := hqueue d hd (hroutes.carried o ho d hd hod)
    obtain ⟨hlen, -⟩ := List.getElem?_eq_some_iff.mp hsome
    have heq : o.1 - t.nodes = t.nodeNumber d.1 d.2 := by
      rw [hexit, Topology.endpoint]
      omega
    rw [heq]
    exact hlen
  next => exact hvnet

end SimpleNetwork

/-! ## Where a message is -/

namespace NetRun

variable {net : SimpleNetwork} {t : Topology} {dist : Table} {links : List (Nat × Nat × NetDest)}
variable {s s' : NetRun} {msg m vnet : Nat} {d : Nat × Nat} {o : Nat × NetDest}

/-- The copies of a message that are on their way to a machine. -/
def carriers (s : NetRun) (msg : Nat) (d : Nat × Nat) : Nat :=
  s.flight.countP fun c => c.msg = msg && c.dsts.carries d

/-- The copies of a message for a machine: on their way, and received. -/
def copies (t : Topology) (s : NetRun) (msg : Nat) (d : Nat × Nat) : Nat :=
  s.carriers msg d + s.received.count (msg, t.nodeNumber d.1 d.2)

theorem countP_copy (c : MsgCopy) (msg : Nat) (d : Nat × Nat) :
    [c].countP (fun c => c.msg = msg && c.dsts.carries d) =
      if c.msg = msg then (c.dsts.carries d).toNat else 0 := by
  rw [countP_singleton]
  by_cases hm : c.msg = msg
  · cases hcarry : c.dsts.carries d <;> simp [hm]
  · simp [hm]

variable {c : MsgCopy} {outputs : List (Nat × NetDest)}

theorem flight_perm {k : Nat} (hc : s.flight[k]? = some c) : s.flight.Perm (s.flight.eraseIdx k ++ [c]) := by
  obtain ⟨hk, heq⟩ := List.getElem?_eq_some_iff.mp hc
  rw [← heq]
  exact ((perm_append_singleton _ _).trans (getElem_cons_eraseIdx_perm hk)).symm

/-- The distances that a set of destinations has before it. -/
def spread (t : Topology) (dist : Table) (i : Nat) (dsts : NetDest) : Nat :=
  (t.machines.map fun d => if dsts.carries d then (dist i (t.endpoint d)).toNat else 0).sum

/-- All distances that are left, and one for each copy. -/
def load (t : Topology) (dist : Table) (s : NetRun) : Nat :=
  (s.flight.map fun c => 1 + spread t dist c.switch c.dsts).sum

/-- A copy that goes out of the network is for its machine alone. -/
def Exits (t : Topology) (o : Nat × NetDest) : Prop :=
  o.1 < 2 * t.nodes → (∃ d ∈ t.machines, o.2.carries d = true) ∧
    ∀ d ∈ t.machines, o.2.carries d = true → o.1 = t.endpoint d

theorem put_copies (ho : Exits t o) (hd : d ∈ t.machines) : copies t (put t m vnet s o) msg d =
      copies t s msg d + if m = msg then (o.2.carries d).toNat else 0 := by
  unfold put copies carriers
  split
  next hlt =>
    obtain ⟨⟨d₀, hd₀, hcarry₀⟩, hexit⟩ := ho hlt
    have hend := hexit d₀ hd₀ hcarry₀
    rw [count_append, ← Nat.add_assoc]
    congr 1
    by_cases hm : m = msg
    · -- the node that the copy reaches is the machine's exactly if the copy is for it
      have hnode : o.1 - t.nodes = t.nodeNumber d.1 d.2 ↔ o.2.carries d = true := by
        constructor
        · intro heq
          rw [hend, Topology.endpoint, Nat.add_sub_cancel] at heq
          have : d₀ = d := Topology.nodeNumber_inj hd₀ hd heq
          rw [← this]
          exact hcarry₀
        · intro hcarry
          rw [hexit d hd hcarry, Topology.endpoint, Nat.add_sub_cancel]
      cases hcarry : o.2.carries d with
      | true => simp [hm, hnode.mpr hcarry]
      | false =>
        have hne : o.1 - t.nodes ≠ t.nodeNumber d.1 d.2 := by
          intro heq
          rw [hnode.mp heq] at hcarry
          cases hcarry
        simp [hne]
    · simp [hm]
  next =>
    rw [countP_append, countP_copy, Nat.add_right_comm]

theorem foldl_put_copies (ho : ∀ o ∈ outputs, Exits t o) (hd : d ∈ t.machines) :
    copies t (outputs.foldl (put t m vnet) s) msg d =
      copies t s msg d + if m = msg then outputs.countP (fun o => o.2.carries d) else 0 := by
  induction outputs generalizing s with
  | nil => simp
  | cons o outputs ih =>
    rw [foldl_cons, ih (forall_mem_cons.mp ho).2,
      put_copies (ho o (mem_cons_self ..)) hd, countP_cons]
    split
    · cases o.2.carries d
      · simp
      · simp; omega
    · rfl

theorem foldl_put_sent : (outputs.foldl (put t m vnet) s).sent = s.sent := by
  induction outputs generalizing s with
  | nil => rfl
  | cons o outputs ih =>
    rw [foldl_cons, ih]
    unfold put
    split <;> rfl

theorem mem_foldl_put (hc : c ∈ (outputs.foldl (put t m vnet) s).flight) :
    c ∈ s.flight ∨ ∃ o ∈ outputs, 2 * t.nodes ≤ o.1 ∧ c = ⟨m, vnet, o.1, o.2⟩ := by
  induction outputs generalizing s with
  | nil => exact Or.inl hc
  | cons o outputs ih =>
    rcases ih hc with hput | ⟨o', ho', h⟩
    · unfold put at hput
      split at hput
      next => exact Or.inl hput
      next hge =>
        rcases mem_append.mp hput with hput | hput
        · exact Or.inl hput
        · exact Or.inr ⟨o, mem_cons_self .., by omega, mem_singleton.mp hput⟩
    · exact Or.inr ⟨o', mem_cons_of_mem _ ho', h⟩

theorem mem_foldl_put_received {x : Nat × Nat}
    (hx : x ∈ (outputs.foldl (put t m vnet) s).received) : x ∈ s.received ∨ x.1 = m := by
  induction outputs generalizing s with
  | nil => exact Or.inl hx
  | cons o outputs ih =>
    rcases ih hx with hput | h
    · unfold put at hput
      split at hput
      next =>
        rcases mem_append.mp hput with hput | hput
        · exact Or.inl hput
        · exact Or.inr (congrArg Prod.fst (mem_singleton.mp hput))
      next => exact Or.inl hput
    · exact Or.inr h

theorem foldl_put_load : load t dist (outputs.foldl (put t m vnet) s) ≤
      load t dist s + (outputs.map fun o => 1 + spread t dist o.1 o.2).sum := by
  induction outputs generalizing s with
  | nil => simp
  | cons o outputs ih =>
    have hput : load t dist (put t m vnet s o) ≤ load t dist s + (1 + spread t dist o.1 o.2) := by
      unfold put load
      split
      · exact Nat.le_add_right _ _
      · rw [map_append, sum_append, map_singleton, sum_singleton]
    have hrest := ih (s := put t m vnet s o)
    rw [foldl_cons, map_cons, sum_cons]
    omega

/-! ## Distances sink -/

theorem sum_spread {ds : List (Nat × Nat)} {g : Nat × Nat → Nat} :
    (outputs.map fun o => (ds.map fun d => if o.2.carries d then g d else 0).sum).sum =
      (ds.map fun d => outputs.countP (fun o => o.2.carries d) * g d).sum := by
  induction outputs with
  | nil => simp
  | cons o outputs ih =>
    rw [map_cons, sum_cons, ih, ← sum_map_add]
    congr 1
    refine map_congr_left ?_
    intro d _
    rw [countP_cons, Nat.add_mul, Nat.add_comm]
    congr 1
    cases o.2.carries d <;> simp

/-- **Sending on makes less of the distances.** -/
theorem outputs_load_le {i : Nat} {dsts : NetDest} (h : t.Routes dist i dsts outputs) :
    (outputs.map fun o => 1 + spread t dist o.1 o.2).sum ≤ spread t dist i dsts := by
  have hone : ∀ o ∈ outputs, 1 + spread t dist o.1 o.2 ≤ spread t dist i o.2 := by
    intro o ho
    have hle : ∀ d ∈ t.machines, (if o.2.carries d then (dist o.1 (t.endpoint d)).toNat else 0) ≤
          if o.2.carries d then (dist i (t.endpoint d)).toNat else 0 := by
      intro d hd
      split
      next hcarry =>
        have := h.nearer o ho d hd hcarry
        omega
      next => exact Nat.le_refl _
    obtain ⟨d₀, hd₀, hcarry₀⟩ := h.nonempty o ho
    have hlt := sum_lt_sum (l := t.machines) _ _ hle ⟨d₀, hd₀, by
      rw [if_pos hcarry₀, if_pos hcarry₀]
      have := h.nearer o ho d₀ hd₀ hcarry₀
      omega⟩
    unfold spread
    omega
  calc (outputs.map fun o => 1 + spread t dist o.1 o.2).sum
      ≤ (outputs.map fun o => spread t dist i o.2).sum := sum_le_sum hone
    _ = (t.machines.map fun d => outputs.countP (fun o => o.2.carries d) *
          (dist i (t.endpoint d)).toNat).sum := sum_spread
    _ = spread t dist i dsts := by
      congr 1
      refine map_congr_left ?_
      intro d hd
      rw [h.parts d hd]
      cases dsts.carries d <;> simp

/-! ## Runs -/

/-- What holds of the network at every moment. -/
structure Delivers (net : SimpleNetwork) (t : Topology) (s : NetRun) : Prop where
  sized : ∀ c ∈ s.flight, t.Sized c.dsts
  router : ∀ c ∈ s.flight, ∃ r < t.numberOfSwitches, c.switch = r + 2 * t.nodes
  vnet : ∀ c ∈ s.flight, c.vnet < net.virtualNetworks
  queue : ∀ c ∈ s.flight, ∀ d ∈ t.machines, c.dsts.carries d = true →
    (net.fromNetQueues (t.nodeNumber d.1 d.2))[c.vnet]? = some true
  known : ∀ c ∈ s.flight, ∃ m ∈ s.sent, m.1 = c.msg
  known' : ∀ x ∈ s.received, ∃ m ∈ s.sent, m.1 = x.1
  once : ∀ m ∈ s.sent, ∀ d ∈ t.machines, copies t s m.1 d = (decide (d ∈ m.2)).toNat

theorem delivers_start : Delivers net t start := by
  constructor <;> intro x hx <;> cases hx

theorem copies_of_unknown (h : Delivers net t s) (hnew : ∀ m ∈ s.sent, m.1 ≠ msg) : copies t s msg d = 0 := by
  have hflight : s.carriers msg d = 0 := by
    refine countP_eq_zero.mpr ?_
    intro c hc hcond
    obtain ⟨m, hm, heq⟩ := h.known c hc
    rw [Bool.and_eq_true, decide_eq_true_iff] at hcond
    exact hnew m hm (heq.trans hcond.1)
  have hreceived : s.received.count (msg, t.nodeNumber d.1 d.2) = 0 := by
    refine List.count_eq_zero.mpr ?_
    intro hx
    obtain ⟨m, hm, heq⟩ := h.known' _ hx
    exact hnew m hm heq
  rw [copies, hflight, hreceived]

/-- **A message is sent.** -/
theorem Delivers.send (hsmall : t.Small) (h : Delivers net t s) {router : Nat}
    {dests : List (Nat × Nat)} (hlegal : s.Legal net t links (.send msg vnet router dests)) :
    ∃ s', s.step net t links (.send msg vnet router dests) = some s' ∧ Delivers net t s' := by
  obtain ⟨hnew, hrouter, hvnet, hdests⟩ := hlegal
  obtain ⟨nd, hnd, hsized, hcarries⟩ := Topology.sized_of_dests hsmall fun d hd => (hdests d hd).1
  have hflight : ∀ {P : MsgCopy → Prop}, (∀ c ∈ s.flight, P c) → P ⟨msg, vnet, router + 2 * t.nodes, nd⟩ →
      ∀ c ∈ s.flight ++ [⟨msg, vnet, router + 2 * t.nodes, nd⟩], P c := fun hold hnew =>
    forall_mem_append.mpr ⟨hold, forall_mem_singleton.mpr hnew⟩
  refine ⟨_, by rw [step, hnd]; rfl, hflight h.sized hsized,
    hflight h.router ⟨router, hrouter, rfl⟩, hflight h.vnet hvnet, ?_, ?_, ?_, ?_⟩
  · refine hflight h.queue fun d hd hcarry => ?_
    rw [hcarries d hd, decide_eq_true_iff] at hcarry
    exact (hdests d hcarry).2
  · refine hflight (fun c hc => ?_) ⟨_, mem_append_right _ (mem_singleton_self _), rfl⟩
    obtain ⟨m, hm, heq⟩ := h.known c hc
    exact ⟨m, mem_append_left _ hm, heq⟩
  · intro x hx
    obtain ⟨m, hm, heq⟩ := h.known' x hx
    exact ⟨m, mem_append_left _ hm, heq⟩
  · intro m hm d hd
    have hcopies : copies t
        { s with flight := s.flight ++ [⟨msg, vnet, router + 2 * t.nodes, nd⟩],
                 sent := s.sent ++ [(msg, dests)] } m.1 d =
        copies t s m.1 d + if msg = m.1 then (nd.carries d).toNat else 0 := by
      unfold copies carriers
      rw [countP_append, countP_copy, Nat.add_right_comm]
    rw [hcopies]
    rcases mem_append.mp hm with hm | hm
    · rw [if_neg (hnew m hm).symm]
      exact h.once m hm d hd
    · cases mem_singleton.mp hm
      rw [if_pos rfl, copies_of_unknown h hnew, Nat.zero_add, hcarries d hd]

/-- **A copy is sent on.** -/
theorem Delivers.sendOn (h : Delivers net t s) {k : Nat} (hc : s.flight[k]? = some c)
    (hroutes : t.Routes dist c.switch c.dsts outputs) :
    Delivers net t (outputs.foldl (put t c.msg c.vnet) { s with flight := s.flight.eraseIdx k }) := by
  have hmem := mem_of_getElem? hc
  have hexits : ∀ o ∈ outputs, Exits t o := by
    intro o ho hlt
    exact ⟨hroutes.nonempty o ho, hroutes.exit o ho hlt⟩
  -- a copy in flight afterwards was there before, or is one of the outputs
  have hflight : ∀ {P : MsgCopy → Prop}, (∀ x ∈ s.flight, P x) →
      (∀ o ∈ outputs, 2 * t.nodes ≤ o.1 → P ⟨c.msg, c.vnet, o.1, o.2⟩) →
      ∀ x ∈ (outputs.foldl (put t c.msg c.vnet) { s with flight := s.flight.eraseIdx k }).flight, P x := by
    intro P hold hnew x hx
    rcases mem_foldl_put hx with hx | ⟨o, ho, hge, rfl⟩
    · exact hold x (mem_of_mem_eraseIdx hx)
    · exact hnew o ho hge
  refine ⟨?_, ?_, ?_, ?_, ?_, ?_, ?_⟩
  · exact hflight h.sized fun o ho _ => hroutes.sized o ho
  · exact hflight h.router hroutes.router
  · exact hflight h.vnet fun o ho _ => h.vnet c hmem
  · exact hflight h.queue fun o ho _ d hd hcarry =>
      h.queue c hmem d hd (hroutes.carried o ho d hd hcarry)
  · rw [foldl_put_sent]
    exact hflight h.known fun o ho _ => h.known c hmem
  · intro x hx
    rw [foldl_put_sent]
    rcases mem_foldl_put_received hx with hx | hx
    · exact h.known' x hx
    · obtain ⟨m, hm, heq⟩ := h.known c hmem
      exact ⟨m, hm, heq.trans hx.symm⟩
  · intro m hm d hd
    rw [foldl_put_sent] at hm
    -- the copy that goes takes its machines with it, and the outputs bring them back
    have herase : copies t s m.1 d = copies t { s with flight := s.flight.eraseIdx k } m.1 d +
          if c.msg = m.1 then (c.dsts.carries d).toNat else 0 := by
      unfold copies carriers
      rw [(flight_perm hc).countP_eq, countP_append, countP_copy, Nat.add_right_comm]
    rw [foldl_put_copies hexits hd, hroutes.parts d hd, ← herase]
    exact h.once m hm d hd

theorem load_eraseIdx {k : Nat} (hc : s.flight[k]? = some c) : load t dist s =
      load t dist { s with flight := s.flight.eraseIdx k } + (1 + spread t dist c.switch c.dsts) := by
  unfold load
  rw [((flight_perm hc).map _).sum_eq, map_append, sum_append, map_singleton, sum_singleton]

section Hops

variable (ht : t.Connected) (hsmall : t.Small) (hbuf : net.Buffered t) (htab : t.Tables dist links)

include ht hsmall hbuf htab

theorem Delivers.routes (h : Delivers net t s) {k : Nat} {c : MsgCopy}
    (hc : s.flight[k]? = some c) {sorted : List Nat}
    (hsorted : sorted.Perm (List.range (outPorts links c.switch).length)) :
    ∃ outputs, net.operateVnet t (outPorts links c.switch) c.vnet sorted c.dsts = some outputs ∧
      t.Routes dist c.switch c.dsts outputs := by
  have hmem := mem_of_getElem? hc
  obtain ⟨r, hr, hswitch⟩ := h.router c hmem
  rw [hswitch] at hsorted ⊢
  exact SimpleNetwork.operateVnet_spec ht hsmall hbuf htab hr (h.vnet c hmem) hsorted
    (h.sized c hmem) (h.queue c hmem)

/-- **A hop is defined, keeps all copies, and lowers the load.** -/
theorem Delivers.hop (h : Delivers net t s) {k : Nat} {sorted : List Nat}
    (hlegal : s.Legal net t links (.hop k sorted)) :
    ∃ s', s.step net t links (.hop k sorted) = some s' ∧ Delivers net t s' ∧ s'.sent = s.sent ∧
      load t dist s' < load t dist s := by
  obtain ⟨hk, hsorted⟩ := hlegal
  have hc : s.flight[k]? = some s.flight[k] := getElem?_eq_getElem hk
  obtain ⟨outputs, hop, hroutes⟩ := h.routes ht hsmall hbuf htab hc (hsorted _ hc)
  refine ⟨_, by rw [step, hc, bind_some, hop]; rfl, h.sendOn hc hroutes, foldl_put_sent, ?_⟩
  have hput : load t dist (outputs.foldl (put t s.flight[k].msg s.flight[k].vnet)
      { s with flight := s.flight.eraseIdx k }) ≤ _ := foldl_put_load
  have hle := outputs_load_le hroutes
  rw [load_eraseIdx hc]
  omega

/-- **Every legal step is defined and keeps all copies.** -/
theorem Delivers.step (h : Delivers net t s) {a : NetAct} (hlegal : s.Legal net t links a) :
    ∃ s', s.step net t links a = some s' ∧ Delivers net t s' := by
  cases a with
  | send msg vnet router dests => exact h.send hsmall hlegal
  | hop k sorted =>
    obtain ⟨s', hs', hdelivers, -⟩ := h.hop ht hsmall hbuf htab hlegal
    exact ⟨s', hs', hdelivers⟩

/-- **All copies get through**, one hop after the other. -/
theorem Delivers.drains : ∀ n {s : NetRun}, load t dist s ≤ n → Delivers net t s →
      ∃ hops s', Run (Guarded (stepOf (NetRun.step net t links)) (NetRun.Legal net t links)) s hops s' ∧
        s'.flight = [] ∧ s'.sent = s.sent := by
  intro n
  induction n with
  | zero =>
    intro s hload h
    refine ⟨[], s, .nil, ?_, rfl⟩
    cases hf : s.flight with
    | nil => rfl
    | cons c rest =>
      unfold load at hload
      rw [hf, map_cons, sum_cons] at hload
      omega
  | succ n ih =>
    intro s hload h
    cases hf : s.flight with
    | nil => exact ⟨[], s, .nil, hf, rfl⟩
    | cons c rest =>
      have hlegal : s.Legal net t links (.hop 0 (List.range (outPorts links c.switch).length)) := by
        refine ⟨by rw [hf]; exact Nat.succ_pos _, ?_⟩
        intro c' hc'
        rw [hf] at hc'
        cases hc'
        exact List.Perm.refl _
      obtain ⟨s₁, hs₁, h₁, hsent, hlt⟩ := h.hop ht hsmall hbuf htab hlegal
      obtain ⟨hops, s', hrun, hempty, hsent'⟩ := ih (by omega) h₁
      exact ⟨_, s', Run.cons ⟨hs₁, hlegal⟩ hrun, hempty, hsent'.trans hsent⟩

end Hops

theorem Delivers.received_of_empty (h : Delivers net t s) (hempty : s.flight = [])
    {m : Nat × List (Nat × Nat)} (hm : m ∈ s.sent) (hd : d ∈ t.machines) :
    s.received.count (m.1, t.nodeNumber d.1 d.2) = (decide (d ∈ m.2)).toNat := by
  have hcopies := h.once m hm d hd
  have hflight : s.carriers m.1 d = 0 := by
    unfold carriers
    rw [hempty]
    rfl
  rw [copies, hflight, Nat.zero_add] at hcopies
  exact hcopies

/-- **Every message is delivered exactly once.**  The shortest paths and routing tables are made.  In every
    run, whatever order the links are looked at in and the hops are taken in: no assertion fails; a switch
    shares the destinations of a copy out to its links, nearer to each of them; every destination of a message
    is at one place, and what is not a destination at none; a hop lowers the load, so that no order of hops
    goes on forever; and when all are done, every destination has received the message once. -/
theorem messages_delivered_once (ht : t.Connected) (hsmall : t.Small) (hbuf : net.Buffered t) :
    ∃ dist links, t.shortestPath = some dist ∧ t.createLinks = some links ∧ ∀ (as : List NetAct) (s : NetRun),
        Run (Guarded (stepOf (NetRun.step net t links)) (NetRun.Legal net t links)) start as s →
        (∀ a, s.Legal net t links a → ∃ s', s.step net t links a = some s') ∧
        (∀ (k : Nat) (c : MsgCopy) (sorted : List Nat), s.flight[k]? = some c →
          sorted.Perm (List.range (outPorts links c.switch).length) → ∃ outputs,
              net.operateVnet t (outPorts links c.switch) c.vnet sorted c.dsts = some outputs ∧
              t.Routes dist c.switch c.dsts outputs) ∧
        (∀ m ∈ s.sent, ∀ d ∈ t.machines, copies t s m.1 d = (decide (d ∈ m.2)).toNat) ∧
        (∀ k sorted s', s.Legal net t links (.hop k sorted) →
          s.step net t links (.hop k sorted) = some s' → load t dist s' < load t dist s) ∧ (∃ hops s',
          Run (Guarded (stepOf (NetRun.step net t links)) (NetRun.Legal net t links)) s hops s' ∧
          s'.flight = [] ∧ s'.sent = s.sent) ∧ (s.flight = [] → ∀ m ∈ s.sent, ∀ d ∈ t.machines,
          s.received.count (m.1, t.nodeNumber d.1 d.2) = (decide (d ∈ m.2)).toNat) := by
  obtain ⟨dist, links, hpath, hdist, hlinks, hgood, hport⟩ :=
    Topology.createLinks_spec ht.positive hsmall
  have htab : t.Tables dist links := ⟨hdist, hgood, hport⟩
  refine ⟨dist, links, hpath, hlinks, ?_⟩
  intro as s hrun
  have h : Delivers net t s := by
    refine hrun.inv ?_ delivers_start
    intro s a s' h hstep
    obtain ⟨s₁, hs₁, h₁⟩ := h.step ht hsmall hbuf htab hstep.2
    cases some.inj (hs₁.symm.trans hstep.1)
    exact h₁
  refine ⟨?_, ?_, h.once, ?_, ?_, ?_⟩
  · intro a hlegal
    obtain ⟨s', hs', -⟩ := h.step ht hsmall hbuf htab hlegal
    exact ⟨s', hs'⟩
  · intro k c sorted hc hsorted
    exact h.routes ht hsmall hbuf htab hc hsorted
  · intro k sorted s' hlegal hs'
    obtain ⟨s₁, hs₁, -, -, hlt⟩ := h.hop ht hsmall hbuf htab hlegal
    cases some.inj (hs₁.symm.trans hs')
    exact hlt
  · exact h.drains ht hsmall hbuf htab _ (Nat.le_refl _)
  · intro hempty m hm d hd
    exact h.received_of_empty hempty hm hd

/-- Two machines at one router, and a third at another. -/
def twoRouters : Topology where
  counts := [2, 1]
  numberOfSwitches := 2
  extLinks := [⟨0, 0, 1⟩, ⟨1, 0, 1⟩, ⟨2, 1, 1⟩]
  intLinks := [⟨0, 1, 3⟩]
  ext_size := by decide
  ext_exists := by decide
  int_exists := by decide

theorem twoRouters_connected : twoRouters.Connected := by
  have h₀ : twoRouters.Path 6 3 1 := .link (by decide)
  have h₁ : twoRouters.Path 6 4 1 := .link (by decide)
  have h₂ : twoRouters.Path 7 5 1 := .link (by decide)
  have hout : twoRouters.Path 6 7 3 := .link (by decide)
  have hback : twoRouters.Path 7 6 3 := .link (by decide)
  refine ⟨by decide, ?_⟩
  intro r hr d hd
  have hd' : d = (0, 0) ∨ d = (0, 1) ∨ d = (1, 0) := by
    have : d ∈ [(0, 0), (0, 1), (1, 0)] := hd
    simpa using this
  have hr' : r = 0 ∨ r = 1 := by
    have : r < 2 := hr
    omega
  rcases hr' with rfl | rfl <;> rcases hd' with rfl | rfl | rfl
  · exact ⟨1, by decide, h₀⟩
  · exact ⟨1, by decide, h₁⟩
  · exact ⟨3 + 1, by decide, hout.trans h₂⟩
  · exact ⟨3 + 1, by decide, hback.trans h₀⟩
  · exact ⟨3 + 1, by decide, hback.trans h₁⟩
  · exact ⟨1, by decide, h₂⟩

/-- A message from the second router for all three machines, with adaptive routing and queues enough: the first
    hop delivers it at one machine and goes on to the other router, the second one delivers the rest. -/
theorem messages_delivered_once_broadcast : ∃ links s, twoRouters.createLinks = some links ∧
      Run (Guarded (stepOf (NetRun.step ⟨true, 2, fun _ => false, fun _ => [true, true]⟩ twoRouters links))
          (NetRun.Legal ⟨true, 2, fun _ => false, fun _ => [true, true]⟩ twoRouters links)) start
        [.send 7 1 1 [(0, 0), (0, 1), (1, 0)], .hop 0 [1, 0], .hop 0 [2, 0, 1]] s ∧
      s.flight = [] ∧ s.received.count (7, 2) = 1 := by
  obtain ⟨dist, links, -, hlinks, hall⟩ := @messages_delivered_once
    ⟨true, 2, fun _ => false, fun _ => [true, true]⟩ twoRouters twoRouters_connected (by decide) (by decide)
  have hexec : (twoRouters.createLinks.bind fun links =>
      (exec (guardFn (NetRun.step ⟨true, 2, fun _ => false, fun _ => [true, true]⟩ twoRouters links)
          (NetRun.Legal ⟨true, 2, fun _ => false, fun _ => [true, true]⟩ twoRouters links)) start
        [.send 7 1 1 [(0, 0), (0, 1), (1, 0)], .hop 0 [1, 0], .hop 0 [2, 0, 1]]).map
        fun s => (s.flight.length, s.sent)) = some (0, [(7, [(0, 0), (0, 1), (1, 0)])]) := by
    decide +kernel
  rw [hlinks] at hexec
  obtain ⟨s, hs, hobs⟩ := map_eq_some_iff.mp hexec
  have hrun := exec_guardFn_iff.mp hs
  obtain ⟨hflight, hsent⟩ := Prod.mk.inj hobs
  have hempty := eq_nil_of_length_eq_zero hflight
  refine ⟨links, s, hlinks, hrun, hempty, ?_⟩
  exact (hall _ s hrun).2.2.2.2.2 hempty (7, [(0, 0), (0, 1), (1, 0)])
    (by rw [hsent]; exact mem_singleton_self _) (1, 0) (by decide)

/-- One type with 33 machines, all at one router. -/
def star33 : Topology where
  counts := [33]
  numberOfSwitches := 1
  extLinks := (List.range 33).map fun node => ⟨node, 0, 1⟩
  intLinks := []
  ext_size := by decide
  ext_exists := by decide
  int_exists := by decide

/-- **Messages that are not delivered.**  With adaptive routing over the default ten virtual networks, of which
    the machines receive from the first two, the first hop of a message reads a buffer that does not exist.
    And a message for the 33rd machine of a type cannot be made. -/
theorem adaptive_routing_reads_missing_buffer : ((twoRouters.createLinks.bind fun links =>
        (exec (guardFn (NetRun.step ⟨true, 10, fun _ => false, fun _ => [true, true]⟩ twoRouters links)
            (NetRun.Legal ⟨true, 10, fun _ => false, fun _ => [true, true]⟩ twoRouters links)) start
          [.send 7 1 1 [(0, 0)]]).map fun s =>
            (decide (NetRun.Legal ⟨true, 10, fun _ => false, fun _ => [true, true]⟩ twoRouters links s
                (.hop 0 [0, 1])), (s.step ⟨true, 10, fun _ => false, fun _ => [true, true]⟩ twoRouters links
                (.hop 0 [0, 1])).isSome)) = some (true, false)) ∧
      ∀ net links, start.step net star33 links (.send 7 0 0 [(0, 32)]) = none ∧ (0, 32) ∈ star33.machines := by
  refine ⟨by decide +kernel, ?_⟩
  intro net links
  have hadd : [(0, 32)].foldlM (fun (nd : NetDest) d => nd.add d.1 d.2) (.new star33.counts) = none := by
    decide
  exact ⟨by rw [step, hadd]; rfl, by decide⟩

end NetRun

end NvpSim.Ruby
