/-
  `BaseXBar::Layer`: the flow control at one destination port of a crossbar.

  The functions are those of `mem/xbar.cc`; `none` is a failed assertion.

  Calls NEST: `sendRetry` runs the port's next `tryTiming` before it returns, and between `tryTiming` and
  `succeededTiming` or `failedTiming` the crossbar calls the peer.  So `retryWaiting` is cut at `sendRetry`
  (`retryWaiting`, `retrySent`), and a `LayerRun` remembers which calls are open.
-/
import NvpSim.Lib.Run
import Mathlib.Data.List.Nodup

namespace NvpSim.Mem

open NvpSim.Lib List Option

/-- `Layer::State`. -/
inductive LayerState where
  | idle
  | busy
  | retry
  deriving DecidableEq, Repr

/-- `Layer`: the members that its functions read, and the tick of `releaseEvent` if scheduled. -/
structure Layer (P : Type) where
  state : LayerState
  drainManager : Bool
  waitingForLayer : List P
  waitingForPeer : Option P
  releaseEvent : Option Nat

namespace Layer

variable {P : Type} [DecidableEq P]

/-- The layer as constructed. -/
def init : Layer P := ⟨.idle, false, [], none, none⟩

/-- `occupyLayer(until)`; an event can be scheduled once, and not in the past. -/
def occupyLayer (l : Layer P) (now until_ : Nat) : Option (Layer P) :=
  if l.state = .busy ∧ until_ ≠ 0 ∧ l.releaseEvent = none ∧ now ≤ until_ then
    some { l with releaseEvent := some until_ }
  else none

def tryTiming (l : Layer P) (src : P) : Option (Layer P × Bool) :=
  if l.state = .busy ∨ l.waitingForPeer ≠ none then
    if src ∈ l.waitingForLayer then none
    else some ({ l with waitingForLayer := l.waitingForLayer ++ [src] }, false)
  else some ({ l with state := .busy }, true)

def succeededTiming (l : Layer P) (now busyTime : Nat) : Option (Layer P) :=
  if l.state = .busy then l.occupyLayer now busyTime else none

def failedTiming (l : Layer P) (src : P) (now busyTime : Nat) : Option (Layer P) :=
  if l.waitingForPeer = none ∧ l.state = .busy then
    { l with waitingForPeer := some src }.occupyLayer now busyTime
  else none

/-- `retryWaiting()` up to `sendRetry(retryingPort)`: the layer, and the port to tell. -/
def retryWaiting (l : Layer P) : Option (Layer P × P) :=
  match l.waitingForLayer with
  | [] => none
  | retryingPort :: rest =>
    if l.state = .idle then
      some ({ l with state := .retry, waitingForLayer := rest }, retryingPort)
    else none

/-- `retryWaiting()` after `sendRetry`: if the port did not call back, busy until the next edge. -/
def retrySent (l : Layer P) (now clockEdge : Nat) : Option (Layer P) :=
  if l.state = .retry then { l with state := .busy }.occupyLayer now clockEdge else some l

/-- `releaseLayer()`: the layer, and the port to tell if there is one. -/
def releaseLayer (l : Layer P) : Option (Layer P × Option P) :=
  if l.state = .busy ∧ l.releaseEvent = none then
    let l := { l with state := .idle }
    if l.waitingForLayer ≠ [] then
      -- no point in sending a retry if someone is still waiting for the peer
      if l.waitingForPeer = none then l.retryWaiting.map fun (l, p) => (l, some p)
      else some (l, none)
    else some ({ l with drainManager := l.drainManager && l.waitingForPeer.isSome }, none)
  else none

def recvRetry (l : Layer P) : Option (Layer P × Option P) :=
  match l.waitingForPeer with
  | none => none
  | some p =>
    let l := { l with waitingForLayer := p :: l.waitingForLayer, waitingForPeer := none }
    if l.state = .idle then l.retryWaiting.map fun (l, p) => (l, some p)
    else if l.state = .busy then some (l, none)
    else none

def drain (l : Layer P) : Layer P :=
  if l.state ≠ .idle then { l with drainManager := true } else l

end Layer

/-! ## Runs -/

/-- A layer in a run: the time, the open calls, and a record of who waits since when.  `since p` is
    the number of the refusal that put `p` on the list, `peerTurn` the port whose refusal by the peer
    was followed by a retry of the peer, and `told` are the ports told to retry, the newest first. -/
structure LayerRun (P : Type) where
  layer : Layer P
  now : Nat
  sending : Option P
  retrying : Bool
  refusals : Nat
  since : P → Nat
  peerTurn : Option P
  told : List P

/-- A call of the layer, the return of `sendRetry`, or time going on. -/
inductive LayerCall (P : Type) where
  | tryTiming (src : P)
  | succeededTiming (busyTime : Nat)
  | failedTiming (busyTime : Nat)
  | releaseLayer
  | recvRetry
  | retrySent (clockEdge : Nat)
  | drain
  | tick (t : Nat)

namespace LayerRun

variable {P : Type}

def start : LayerRun P := ⟨Layer.init, 0, none, false, 0, fun _ => 0, none, []⟩

/-- The layer after a function that may end in `sendRetry`. -/
def tell (s : LayerRun P) : Layer P × Option P → LayerRun P
  | (l, none) => { s with layer := l }
  | (l, some p) => { s with layer := l, retrying := true, peerTurn := none, told := p :: s.told }

section Step

variable [DecidableEq P]

/-- One call. -/
def step (s : LayerRun P) : LayerCall P → Option (LayerRun P)
  | .tryTiming src => (s.layer.tryTiming src).map fun (l, accepted) =>
    if accepted then { s with layer := l, sending := some src }
    else { s with layer := l, refusals := s.refusals + 1, since := Function.update s.since src s.refusals }
  | .succeededTiming busyTime => (s.layer.succeededTiming s.now busyTime).map fun l =>
    { s with layer := l, sending := none }
  | .failedTiming busyTime => s.sending.bind fun src =>
    (s.layer.failedTiming src s.now busyTime).map fun l => { s with layer := l, sending := none }
  | .releaseLayer => ({ s.layer with releaseEvent := none }.releaseLayer).map s.tell
  | .recvRetry =>
    (s.layer.recvRetry).map fun r => { s with peerTurn := s.layer.waitingForPeer }.tell r
  | .retrySent clockEdge => (s.layer.retrySent s.now clockEdge).map fun l =>
    { s with layer := l, retrying := false }
  | .drain => some { s with layer := s.layer.drain }
  | .tick t => some { s with now := t }

/-- What the ports, the peer and the event queue do: a port that was refused waits to be told, a send
    that was let through ends, the peer sends a retry only if it refused, the release event fires at
    its time and outside of any other call, and busy times are not in the past. -/
def Legal (s : LayerRun P) : LayerCall P → Prop
  | .tryTiming src => src ∉ s.layer.waitingForLayer ∧ s.layer.waitingForPeer ≠ some src ∧ s.sending ≠ some src
  | .succeededTiming busyTime => s.sending ≠ none ∧ s.now ≤ busyTime ∧ busyTime ≠ 0
  | .failedTiming busyTime => s.sending ≠ none ∧ s.now ≤ busyTime ∧ busyTime ≠ 0
  | .releaseLayer => s.layer.releaseEvent = some s.now ∧ s.sending = none ∧ s.retrying = false
  | .recvRetry => s.layer.waitingForPeer ≠ none
  | .retrySent clockEdge => s.retrying = true ∧ s.sending = none ∧ s.now ≤ clockEdge
  | .drain => True
  | .tick t => s.now ≤ t ∧ s.sending = none ∧ s.retrying = false ∧
    ∀ r ∈ s.layer.releaseEvent, t ≤ r

instance (s : LayerRun P) : (c : LayerCall P) → Decidable (Legal s c)
  | .tryTiming _ => inferInstanceAs (Decidable (_ ∧ _ ∧ _))
  | .succeededTiming _ => inferInstanceAs (Decidable (_ ∧ _ ∧ _))
  | .failedTiming _ => inferInstanceAs (Decidable (_ ∧ _ ∧ _))
  | .releaseLayer => inferInstanceAs (Decidable (_ ∧ _ ∧ _))
  | .recvRetry => inferInstanceAs (Decidable (_ ≠ none))
  | .retrySent _ => inferInstanceAs (Decidable (_ ∧ _ ∧ _))
  | .drain => inferInstanceAs (Decidable True)
  | .tick _ => inferInstanceAs (Decidable (_ ∧ _ ∧ _ ∧ _))

end Step

/-! ## The invariant -/

/-- The port that goes first and then the others in the order of their refusals. -/
def InOrder (s : LayerRun P) : Prop :=
  ∃ fifo, s.layer.waitingForLayer = s.peerTurn.toList ++ fifo ∧
    fifo.Pairwise (fun p q => s.since p < s.since q) ∧ ∀ p ∈ fifo, s.since p < s.refusals

/-- **What holds between any two calls**, nested ones included. -/
structure Inv (s : LayerRun P) : Prop where
  /-- While a packet is being sent on, the layer is busy and its release not yet scheduled. -/
  sending : ∀ p ∈ s.sending, s.layer.state = .busy ∧ s.layer.releaseEvent = none ∧
    s.layer.waitingForPeer = none ∧ s.peerTurn = none ∧ p ∉ s.layer.waitingForLayer
  busy : s.layer.state = .busy → s.sending = none → s.layer.releaseEvent ≠ none
  release : ∀ r ∈ s.layer.releaseEvent, s.layer.state = .busy ∧ r ≠ 0 ∧ s.now ≤ r
  retry : s.layer.state = .retry → s.retrying = true ∧ s.layer.waitingForPeer = none
  retrying : s.retrying = true → s.layer.state ≠ .idle ∧ 0 < s.now
  idle : s.layer.state = .idle → s.layer.waitingForPeer = none → s.layer.waitingForLayer = []
  /-- The layer was busy before the peer can retry, so that is not at tick 0. -/
  late : s.layer.state = .idle → s.layer.waitingForPeer ≠ none → 0 < s.now
  peerTurn : ∀ p ∈ s.peerTurn, s.layer.state = .busy ∧ s.layer.waitingForPeer = none
  nodup : s.layer.waitingForLayer.Nodup
  peerApart : ∀ p ∈ s.layer.waitingForPeer, p ∉ s.layer.waitingForLayer
  order : s.InOrder

theorem inv_start : (start : LayerRun P).Inv where
  sending := by intro p hp; cases hp
  busy := by intro h; cases h
  release := by intro r hr; cases hr
  retry := by intro h; cases h
  retrying := by intro h; cases h
  idle := fun _ _ => rfl
  late := fun _ h => absurd rfl h
  peerTurn := by intro p hp; cases hp
  nodup := nodup_nil
  peerApart := by intro p hp; cases hp
  order := ⟨[], rfl, List.Pairwise.nil, by intro p hp; cases hp⟩

variable [DecidableEq P] {s s' : LayerRun P} {src : P} {busyTime clockEdge : Nat}

theorem Inv.tryTiming_refused (h : s.Inv) (hc : s.Legal (.tryTiming src))
    (hwait : s.layer.state = .busy ∨ s.layer.waitingForPeer ≠ none) :
    ∃ s', s.step (.tryTiming src) = some s' ∧ s'.Inv ∧ s'.told = s.told := by
  obtain ⟨hnot, hpeer, hsend⟩ := hc
  have htry : s.layer.tryTiming src =
      some ({ s.layer with waitingForLayer := s.layer.waitingForLayer ++ [src] }, false) := by
    rw [Layer.tryTiming, if_pos hwait, if_neg hnot]
  have hmem : ∀ p, p ∈ s.layer.waitingForLayer ++ [src] → p ∈ s.layer.waitingForLayer ∨ p = src := by
    intro p hp
    simpa using hp
  refine ⟨{ s with
    layer := { s.layer with waitingForLayer := s.layer.waitingForLayer ++ [src] },
    refusals := s.refusals + 1, since := Function.update s.since src s.refusals },
    by rw [step, htry]; rfl, ?_, rfl⟩
  refine ⟨fun p hp => ?_, h.busy, h.release, h.retry, h.retrying, fun hidle hnone => ?_, h.late,
    h.peerTurn, ?_, fun p hp hq => ?_, ?_⟩
  · obtain ⟨hb, hr, hw, ht, hnotp⟩ := h.sending p hp
    refine ⟨hb, hr, hw, ht, fun hq => ?_⟩
    rcases hmem p hq with hq | rfl
    · exact hnotp hq
    · exact hsend hp
  · exact absurd hnone (hwait.resolve_left fun hb => absurd (hb.symm.trans hidle) (by decide))
  · show (s.layer.waitingForLayer ++ [src]).Nodup
    rw [nodup_append]
    refine ⟨h.nodup, nodup_singleton _, fun p hp q hq hpq => hnot ?_⟩
    rw [← mem_singleton.mp hq, ← hpq]
    exact hp
  · rcases hmem p hq with hq | rfl
    · exact h.peerApart p hp hq
    · exact hpeer hp
  · obtain ⟨fifo, hlist, hsorted, hsince⟩ := h.order
    have hfresh : ∀ p ∈ fifo, p ≠ src := by
      rintro p hp rfl
      exact hnot (by rw [hlist]; exact mem_append_right _ hp)
    have hsame : ∀ p ∈ fifo, Function.update s.since src s.refusals p = s.since p := fun p hp =>
      Function.update_of_ne (hfresh p hp) _ _
    have hself : Function.update s.since src s.refusals src = s.refusals := Function.update_self ..
    refine ⟨fifo ++ [src], ?_, ?_, ?_⟩
    · show s.layer.waitingForLayer ++ [src] = s.peerTurn.toList ++ (fifo ++ [src])
      rw [hlist, append_assoc]
    · -- the port is the last of all refused so far
      refine pairwise_append.mpr ⟨?_, pairwise_singleton _ _, fun p hp q hq => ?_⟩
      · refine hsorted.imp_of_mem fun hp hq hlt => ?_
        show Function.update s.since src s.refusals _ < Function.update s.since src s.refusals _
        rw [hsame _ hp, hsame _ hq]
        exact hlt
      · show Function.update s.since src s.refusals p < Function.update s.since src s.refusals q
        rw [mem_singleton.mp hq, hself, hsame p hp]
        exact hsince p hp
    · intro p hp
      show Function.update s.since src s.refusals p < s.refusals + 1
      rcases mem_append.mp hp with hp | hp
      · rw [hsame p hp]
        exact Nat.lt_succ_of_lt (hsince p hp)
      · rw [mem_singleton.mp hp, hself]
        exact Nat.lt_succ_self _

omit [DecidableEq P] in
theorem Inv.event_of_not_busy (h : s.Inv) (hb : s.layer.state ≠ .busy) : s.layer.releaseEvent = none := by
  cases hr : s.layer.releaseEvent with
  | none => rfl
  | some r => exact absurd (h.release r hr).1 hb

omit [DecidableEq P] in
theorem Inv.peerTurn_of_not_busy (h : s.Inv) (hb : s.layer.state ≠ .busy) : s.peerTurn = none := by
  cases hp : s.peerTurn with
  | none => rfl
  | some p => exact absurd (h.peerTurn p hp).1 hb

theorem Inv.tryTiming_accepted (h : s.Inv) (hc : s.Legal (.tryTiming src))
    (hfree : ¬ (s.layer.state = .busy ∨ s.layer.waitingForPeer ≠ none)) :
    ∃ s', s.step (.tryTiming src) = some s' ∧ s'.Inv ∧ s'.told = s.told := by
  have htry : s.layer.tryTiming src = some ({ s.layer with state := .busy }, true) := by
    rw [Layer.tryTiming, if_neg hfree]
  have hbusy : s.layer.state ≠ .busy := fun hb => hfree (Or.inl hb)
  have hnone : s.layer.waitingForPeer = none := by
    by_contra hne
    exact hfree (Or.inr hne)
  refine ⟨{ s with layer := { s.layer with state := .busy }, sending := some src },
    by rw [step, htry]; rfl, ?_, rfl⟩
  refine ⟨fun p hp => ?_, nofun, fun r hr => ?_, nofun,
    fun hr => ⟨nofun, (h.retrying hr).2⟩, nofun, nofun,
    fun p hp => ?_, h.nodup, h.peerApart, h.order⟩
  · cases hp
    exact ⟨rfl, h.event_of_not_busy hbusy, hnone, h.peerTurn_of_not_busy hbusy, hc.1⟩
  · exact absurd (h.release r hr).1 hbusy
  · exact absurd (h.peerTurn p hp).1 hbusy

omit [DecidableEq P] in
theorem occupyLayer_eq {l : Layer P} {now t : Nat} (hbusy : l.state = .busy) (ht : t ≠ 0)
    (hevent : l.releaseEvent = none) (hnow : now ≤ t) :
    l.occupyLayer now t = some { l with releaseEvent := some t } := by
  rw [Layer.occupyLayer, if_pos ⟨hbusy, ht, hevent, hnow⟩]

theorem Inv.succeededTiming (h : s.Inv) (hc : s.Legal (.succeededTiming busyTime)) :
    ∃ s', s.step (.succeededTiming busyTime) = some s' ∧ s'.Inv ∧ s'.told = s.told := by
  obtain ⟨hsend, hnow, hne⟩ := hc
  obtain ⟨src, hsrc⟩ := ne_none_iff_exists'.mp hsend
  obtain ⟨hbusy, hevent, -⟩ := h.sending src hsrc
  have hocc := occupyLayer_eq hbusy hne hevent hnow
  refine ⟨{ s with layer := { s.layer with releaseEvent := some busyTime }, sending := none },
    by rw [step, Layer.succeededTiming, if_pos hbusy, hocc]; rfl, ?_, rfl⟩
  refine { h with sending := nofun, busy := fun _ _ => (by simp), release := fun r hr => ?_ }
  cases hr
  exact ⟨hbusy, hne, hnow⟩

theorem Inv.failedTiming (h : s.Inv) (hc : s.Legal (.failedTiming busyTime)) :
    ∃ s', s.step (.failedTiming busyTime) = some s' ∧ s'.Inv ∧ s'.told = s.told := by
  obtain ⟨hsend, hnow, hne⟩ := hc
  obtain ⟨src, hsrc⟩ := ne_none_iff_exists'.mp hsend
  obtain ⟨hbusy, hevent, hnone, hturn, hnot⟩ := h.sending src hsrc
  have hocc := occupyLayer_eq (l := { s.layer with waitingForPeer := some src }) hbusy hne hevent hnow
  refine ⟨{ s with
    layer := { s.layer with waitingForPeer := some src, releaseEvent := some busyTime },
    sending := none }, ?_, ?_, rfl⟩
  · rw [step, hsrc, bind_some, Layer.failedTiming, if_pos ⟨hnone, hbusy⟩, hocc]
    rfl
  refine ⟨nofun, fun _ _ => (by simp), fun r hr => ?_, fun hr => ?_, h.retrying,
    fun hi => ?_, fun hi => ?_, fun p hp => ?_, h.nodup, fun p hp => ?_, h.order⟩
  · cases hr
    exact ⟨hbusy, hne, hnow⟩
  · exact absurd (hbusy.symm.trans hr) (by decide)
  · exact absurd (hbusy.symm.trans hi) (by decide)
  · exact absurd (hbusy.symm.trans hi) (by decide)
  · exact absurd (hturn.symm.trans hp) (by simp)
  · cases hp
    exact hnot

/-! ## Telling a port -/

/-- The port at the front has its turn after the peer, or has waited longest. -/
def First (s : LayerRun P) (p : P) : Prop :=
  s.peerTurn = some p ∨ (s.peerTurn = none ∧ ∀ q ∈ s.layer.waitingForLayer, q ≠ p → s.since p < s.since q)

omit [DecidableEq P] in
theorem InOrder.tail {p : P} {rest : List P} (h : s.InOrder) (hlist : s.layer.waitingForLayer = p :: rest) :
    s.First p ∧ rest.Pairwise (fun p q => s.since p < s.since q) ∧ ∀ q ∈ rest, s.since q < s.refusals := by
  obtain ⟨fifo, heq, hsorted, hsince⟩ := h
  rw [hlist] at heq
  cases hturn : s.peerTurn with
  | some q =>
    rw [hturn] at heq
    obtain ⟨rfl, rfl⟩ := List.cons.inj heq
    exact ⟨Or.inl hturn, hsorted, hsince⟩
  | none =>
    rw [hturn] at heq
    have hfifo : p :: rest = fifo := heq
    subst hfifo
    obtain ⟨hfirst, hrest⟩ := pairwise_cons.mp hsorted
    refine ⟨Or.inr ⟨hturn, fun q hq hne => ?_⟩, hrest, fun q hq =>
      hsince q (mem_cons_of_mem _ hq)⟩
    rw [hlist] at hq
    exact hfirst q ((mem_cons.mp hq).resolve_left hne)

omit [DecidableEq P] in
theorem inv_told {p : P} {rest : List P} (hidle : s.layer.state = .idle)
    (hlist : s.layer.waitingForLayer = p :: rest) (hpeer : s.layer.waitingForPeer = none)
    (hevent : s.layer.releaseEvent = none) (hsend : s.sending = none) (hnow : 0 < s.now)
    (hnodup : s.layer.waitingForLayer.Nodup) (horder : s.InOrder) :
    ∃ s', (s.layer.retryWaiting.map fun (l, p) => (l, some p)).map s.tell = some s' ∧ s'.Inv ∧
      s'.told = p :: s.told := by
  obtain ⟨-, hsorted, hsince⟩ := horder.tail hlist
  have hretry : s.layer.retryWaiting = some ({ s.layer with state := .retry, waitingForLayer := rest }, p) := by
    rw [Layer.retryWaiting, hlist]
    simp only [hidle, if_true]
  refine ⟨s.tell ({ s.layer with state := .retry, waitingForLayer := rest }, some p),
    by rw [hretry]; rfl, ?_, rfl⟩
  refine ⟨fun q hq => ?_, nofun, fun r hr => ?_, fun _ => ⟨rfl, hpeer⟩,
    fun _ => ⟨nofun, hnow⟩, nofun, nofun,
    nofun, ?_, fun q hq => ?_, ⟨rest, rfl, hsorted, hsince⟩⟩
  · exact absurd (hsend.symm.trans hq) (by simp)
  · exact absurd (hevent.symm.trans hr) (by simp)
  · rw [hlist] at hnodup
    exact (nodup_cons.mp hnodup).2
  · exact absurd (hpeer.symm.trans hq) (by simp)

/-- What a call does to the record of the ports told: nothing, or one more, that was first. -/
def TellsFirst (s s' : LayerRun P) (c : LayerCall P) : Prop :=
  s'.told = s.told ∨ ∃ p, s'.told = p :: s.told ∧ ((p ∈ s.layer.waitingForLayer ∧ s.First p) ∨
      (c = .recvRetry ∧ s.layer.waitingForPeer = some p))

theorem Inv.releaseLayer (h : s.Inv) (hc : s.Legal .releaseLayer) :
    ∃ s', s.step .releaseLayer = some s' ∧ s'.Inv ∧ TellsFirst s s' .releaseLayer := by
  obtain ⟨hevent, hsend, hretrying⟩ := hc
  obtain ⟨hbusy, hne, -⟩ := h.release _ hevent
  have hnow : 0 < s.now := Nat.pos_of_ne_zero hne
  have hturn : s.layer.waitingForLayer = [] ∨ s.layer.waitingForPeer ≠ none → s.peerTurn = none := by
    intro hor
    cases hp : s.peerTurn with
    | none => rfl
    | some q =>
      obtain ⟨fifo, heq, -⟩ := h.order
      rw [hp] at heq
      rcases hor with hnil | hpeer
      · rw [hnil] at heq
        cases heq
      · exact absurd (h.peerTurn q hp).2 hpeer
  -- the layer is idle again and tells nobody
  have hquiet : ∀ dm, (s.layer.waitingForLayer = [] ∨ s.layer.waitingForPeer ≠ none) → LayerRun.Inv { s with
        layer := { s.layer with state := .idle, releaseEvent := none, drainManager := dm } } := by
    intro dm hor
    refine ⟨fun p hp => ?_, nofun, nofun,
      nofun, fun hr => ?_, fun _ hnone => ?_, fun _ _ => hnow, fun p hp => ?_,
      h.nodup, h.peerApart, h.order⟩
    · exact absurd (hsend.symm.trans hp) (by simp)
    · exact absurd (hretrying.symm.trans hr) (by decide)
    · exact hor.resolve_right fun hne => hne hnone
    · exact absurd ((hturn hor).symm.trans hp) (by simp)
  rw [step, Layer.releaseLayer, if_pos ⟨hbusy, rfl⟩]
  by_cases hlist : s.layer.waitingForLayer = []
  · rw [if_neg (not_not_intro hlist)]
    exact ⟨_, rfl, hquiet _ (Or.inl hlist), Or.inl rfl⟩
  · rw [if_pos hlist]
    by_cases hpeer : s.layer.waitingForPeer = none
    · rw [if_pos hpeer]
      obtain ⟨p, rest, hcons⟩ := exists_cons_of_ne_nil hlist
      obtain ⟨s', hs', hinv, htold⟩ := inv_told
        (s := { s with layer := { s.layer with state := .idle, releaseEvent := none } })
        rfl hcons hpeer rfl hsend hnow h.nodup h.order
      refine ⟨s', hs', hinv, Or.inr ⟨p, htold, Or.inl ⟨?_, (h.order.tail hcons).1⟩⟩⟩
      rw [hcons]
      exact mem_cons_self
    · rw [if_neg hpeer]
      exact ⟨_, rfl, hquiet _ (Or.inr hpeer), Or.inl rfl⟩

theorem Inv.recvRetry (h : s.Inv) (hc : s.Legal .recvRetry) :
    ∃ s', s.step .recvRetry = some s' ∧ s'.Inv ∧ TellsFirst s s' .recvRetry := by
  obtain ⟨p, hp⟩ := ne_none_iff_exists'.mp hc
  have hsend : s.sending = none := by
    cases hs : s.sending with
    | none => rfl
    | some q => exact absurd (h.sending q hs).2.2.1 hc
  have hturn : s.peerTurn = none := by
    cases ht : s.peerTurn with
    | none => rfl
    | some q => exact absurd (h.peerTurn q ht).2 hc
  have hnodup : (p :: s.layer.waitingForLayer).Nodup :=
    nodup_cons.mpr ⟨h.peerApart p hp, h.nodup⟩
  obtain ⟨fifo, hlist, hsorted, hsince⟩ := h.order
  have hfifo : s.layer.waitingForLayer = fifo := by
    rw [hlist, hturn]
    rfl
  -- the refused port is now at the front
  have horder : LayerRun.InOrder { s with
      layer := { s.layer with
        waitingForLayer := p :: s.layer.waitingForLayer, waitingForPeer := none },
      peerTurn := some p } := ⟨fifo, by rw [hfifo]; rfl, hsorted, hsince⟩
  rw [step, Layer.recvRetry, hp]
  dsimp only
  by_cases hidle : s.layer.state = .idle
  · rw [if_pos hidle]
    obtain ⟨s', hs', hinv, htold⟩ := inv_told (s := { s with
        layer := { s.layer with
          waitingForLayer := p :: s.layer.waitingForLayer, waitingForPeer := none },
        peerTurn := some p })
      hidle rfl rfl (h.event_of_not_busy (by rw [hidle]; decide)) hsend (h.late hidle hc) hnodup horder
    exact ⟨s', hs', hinv, Or.inr ⟨p, htold, Or.inr ⟨rfl, hp⟩⟩⟩
  · have hbusy : s.layer.state = .busy := by
      cases hstate : s.layer.state with
      | idle => exact absurd hstate hidle
      | busy => rfl
      | retry => exact absurd (h.retry hstate).2 hc
    rw [if_neg hidle, if_pos hbusy]
    refine ⟨_, rfl, ?_, Or.inl rfl⟩
    refine ⟨fun q hq => ?_, h.busy, h.release, fun hr => ?_, h.retrying, fun hi => ?_,
      fun _ hne => absurd rfl hne, fun _ _ => ⟨hbusy, rfl⟩, hnodup, nofun, horder⟩
    · exact absurd (hsend.symm.trans hq) (by simp)
    · exact absurd (hbusy.symm.trans hr) (by decide)
    · exact absurd hi hidle

theorem Inv.retrySent (h : s.Inv) (hc : s.Legal (.retrySent clockEdge)) :
    ∃ s', s.step (.retrySent clockEdge) = some s' ∧ s'.Inv ∧ s'.told = s.told := by
  obtain ⟨hretrying, hsend, hedge⟩ := hc
  obtain ⟨hnotIdle, hnow⟩ := h.retrying hretrying
  have hne : clockEdge ≠ 0 := Nat.ne_of_gt (Nat.lt_of_lt_of_le hnow hedge)
  by_cases hretry : s.layer.state = .retry
  · -- the port did not call back
    have hevent := h.event_of_not_busy (by rw [hretry]; decide)
    have hocc := occupyLayer_eq (l := { s.layer with state := .busy }) rfl hne hevent hedge
    refine ⟨{ s with
      layer := { s.layer with state := .busy, releaseEvent := some clockEdge }, retrying := false },
      ?_, ?_, rfl⟩
    · rw [step, Layer.retrySent, if_pos hretry, hocc]
      rfl
    refine ⟨fun p hp => ?_, fun _ _ => (by simp), fun r hr => ?_, nofun,
      nofun, nofun, nofun, fun p hp => ?_,
      h.nodup, h.peerApart, h.order⟩
    · exact absurd (hsend.symm.trans hp) (by simp)
    · cases hr
      exact ⟨rfl, hne, hedge⟩
    · exact absurd ((h.peerTurn p hp).1.symm.trans hretry) (by decide)
  · refine ⟨{ s with retrying := false }, by rw [step, Layer.retrySent, if_neg hretry]; rfl, ?_, rfl⟩
    exact { h with retry := fun hr => absurd hr hretry, retrying := nofun }

omit [DecidableEq P] in
theorem Inv.tick {t : Nat} (h : s.Inv) (hc : s.Legal (.tick t)) : LayerRun.Inv { s with now := t } := by
  obtain ⟨hle, -, hretrying, hlate⟩ := hc
  refine { h with release := fun r hr => ?_, retrying := fun hr => ?_, late := fun hi hw => ?_ }
  · obtain ⟨hb, hne, -⟩ := h.release r hr
    exact ⟨hb, hne, hlate r hr⟩
  · exact absurd (hretrying.symm.trans hr) (by decide)
  · exact Nat.lt_of_lt_of_le (h.late hi hw) hle

/-- **Every legal call goes through, keeps the invariant and tells nobody out of turn.** -/
theorem Inv.step {c : LayerCall P} (h : s.Inv) (hc : s.Legal c) :
    ∃ s', s.step c = some s' ∧ s'.Inv ∧ TellsFirst s s' c := by
  have hquiet : (∃ s', s.step c = some s' ∧ s'.Inv ∧ s'.told = s.told) →
      ∃ s', s.step c = some s' ∧ s'.Inv ∧ TellsFirst s s' c := by
    rintro ⟨s', hs', hinv, htold⟩
    exact ⟨s', hs', hinv, Or.inl htold⟩
  cases c with
  | tryTiming src =>
    by_cases hwait : s.layer.state = .busy ∨ s.layer.waitingForPeer ≠ none
    · exact hquiet (h.tryTiming_refused hc hwait)
    · exact hquiet (h.tryTiming_accepted hc hwait)
  | succeededTiming busyTime => exact hquiet (h.succeededTiming hc)
  | failedTiming busyTime => exact hquiet (h.failedTiming hc)
  | releaseLayer => exact h.releaseLayer hc
  | recvRetry => exact h.recvRetry hc
  | retrySent clockEdge => exact hquiet (h.retrySent hc)
  | drain =>
    refine ⟨_, rfl, ?_, Or.inl rfl⟩
    unfold Layer.drain
    split
    · exact { h with }
    · exact h
  | tick t => exact ⟨_, rfl, h.tick hc, Or.inl rfl⟩

theorem inv_of_run {cs : List (LayerCall P)} (h : Run (Guarded (stepOf step) Legal) start cs s) : s.Inv := by
  refine h.inv (P := Inv) (fun s c s' hinv hs => ?_) inv_start
  obtain ⟨s'', hs'', hinv', -⟩ := hinv.step hs.2
  cases hs''.symm.trans hs.1
  exact hinv'

/-- **A crossbar layer never loses a wakeup.**  After every sequence of legal calls, nested ones
    included: the release event is scheduled if and only if the layer is busy and no packet is just
    being sent on; an idle layer that does not wait for its peer has nobody waiting; no port waits
    twice; and every further legal call goes through without a failed assertion, and tells a port to
    retry only if it is the one the peer has refused and now retries, or the one that waits longest
    when there is none such. -/
theorem layer_wakeup {cs : List (LayerCall P)} (h : Run (Guarded (stepOf step) Legal) start cs s) :
    (s.layer.releaseEvent ≠ none ↔ s.layer.state = .busy ∧ s.sending = none) ∧
    (s.layer.state = .idle → s.layer.waitingForPeer = none → s.layer.waitingForLayer = []) ∧
    (s.layer.waitingForLayer ++ s.layer.waitingForPeer.toList).Nodup ∧
    ∀ c, s.Legal c → ∃ s', s.step c = some s' ∧ TellsFirst s s' c := by
  have hinv := inv_of_run h
  refine ⟨⟨fun hne => ?_, fun hb => hinv.busy hb.1 hb.2⟩, hinv.idle, ?_, fun c hc => ?_⟩
  · obtain ⟨r, hr⟩ := ne_none_iff_exists'.mp hne
    refine ⟨(hinv.release r hr).1, ?_⟩
    cases hs : s.sending with
    | none => rfl
    | some p => exact absurd (hinv.sending p hs).2.1 hne
  · refine nodup_append.mpr ⟨hinv.nodup, ?_, fun p hp q hq hpq => ?_⟩
    · cases s.layer.waitingForPeer with
      | none => exact nodup_nil
      | some p => exact nodup_singleton p
    · exact hinv.peerApart q (mem_toList.mp hq) (hpq ▸ hp)
  · obtain ⟨s', hs', -, htell⟩ := hinv.step hc
    exact ⟨s', hs', htell⟩

/-- Port 0 is refused by the peer while ports 1 and 2 wait; it is told first, and answers at once. -/
def demoCalls : List (LayerCall Nat) :=
  [.tryTiming 0, .tryTiming 1, .tryTiming 2, .failedTiming 10, .tick 10, .releaseLayer, .recvRetry,
    .tryTiming 0, .succeededTiming 20, .retrySent 10, .tick 20, .releaseLayer]

/-- `layer_wakeup` inside the retry of port 1. -/
theorem layer_wakeup_in_retry : ∃ s, exec (guardFn step Legal) start demoCalls = some s ∧ s.told = [1, 0] ∧
      s.layer.waitingForLayer = [2] ∧ (s.layer.waitingForLayer ++ s.layer.waitingForPeer.toList).Nodup ∧
      ∀ c, s.Legal c → ∃ s', s.step c = some s' ∧ TellsFirst s s' c := by
  refine exec_observe (fun s => (s.told, s.layer.waitingForLayer))
    ([1, 0], [2]) (by decide +kernel) fun s hs hobs => ?_
  simp only [Prod.mk.injEq] at hobs
  obtain ⟨-, -, hnodup, hnext⟩ := layer_wakeup (exec_guardFn_iff.mp hs)
  exact ⟨hobs.1, hobs.2, hnodup, hnext⟩

/-- **Busy without a release event**: while the packet of an accepted port is being sent on, the layer
    is busy and its release is not scheduled yet. -/
theorem busy_before_release_scheduled : ∃ s : LayerRun Nat, exec (guardFn step Legal) start [.tryTiming 0] = some s ∧
      s.layer.state = .busy ∧ s.layer.releaseEvent = none := by
  refine exec_observe (fun s : LayerRun Nat => (s.layer.state, s.layer.releaseEvent))
    (.busy, none) (by decide +kernel) fun s hs hobs => ?_
  simp only [Prod.mk.injEq] at hobs
  exact ⟨hobs.1, hobs.2⟩

end LayerRun

end NvpSim.Mem
