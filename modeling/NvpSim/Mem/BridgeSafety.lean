/-
  The bridge neither loses nor duplicates traffic, and it does not forget a requester that it refused.

  A transmit list is empty, or has its event scheduled, or is in the middle of a send, or waits for the retry of
  a peer (`Phase`).  Calls that come in between a send and its return only add to the END of a list that is not
  empty, so the packet that is removed after the send is the one that was sent.

  The flag `retryReq` is set when one of the two queues is full.
-/
import NvpSim.Mem.Bridge

namespace NvpSim.Mem

open NvpSim.Lib List Option

/-! ## The phases of a transmit list -/

/-- Where a transmit list stands: how its first packet will get on. -/
inductive Phase (now : Nat) (q : TransmitQueue) (sending : Option Packet) (refused : Bool) : Prop where
  | idle (hlist : q.transmitList = []) (hevent : q.sendEvent = none) (hsend : sending = none)
      (href : refused = false)
  | scheduled (d : BridgeDeferred) (rest : List BridgeDeferred) (t : Nat)
      (hlist : q.transmitList = d :: rest) (hevent : q.sendEvent = some t) (hsend : sending = none)
      (href : refused = false) (hd : d.tick ≤ t) (ht : now ≤ t)
  | sending (d : BridgeDeferred) (rest : List BridgeDeferred) (hlist : q.transmitList = d :: rest)
      (hevent : q.sendEvent = none) (hsend : sending = some d.pkt) (href : refused = false)
      (hd : d.tick ≤ now)
  | refused (d : BridgeDeferred) (rest : List BridgeDeferred) (hlist : q.transmitList = d :: rest)
      (hevent : q.sendEvent = none) (hsend : sending = none) (href : refused = true)
      (hd : d.tick ≤ now)

/-- A list that is not empty has its event scheduled, or a send that is open, or one that was refused and
    waits for a retry; and only one of the three. -/
def OneWay (q : TransmitQueue) (t : Traffic) : Prop :=
  q.transmitList ≠ [] → (q.sendEvent ≠ none ∧ t.refused = false ∧ t.sending = none) ∨
      (q.sendEvent = none ∧ t.refused = true ∧ t.sending = none) ∨
      (q.sendEvent = none ∧ t.refused = false ∧ t.sending ≠ none)

variable {now : Nat} {q : TransmitQueue} {sending : Option Packet} {refused : Bool} {pkt : Packet}

namespace Phase

/-- In every phase a waiting packet has one way on: its event, a call that is open, or the peer's retry. -/
theorem oneWay {t : Traffic} (h : Phase now q t.sending t.refused) : OneWay q t := by
  intro hne
  cases h with
  | idle hlist => exact absurd hlist hne
  | scheduled d rest t hlist hevent hsend href =>
    exact Or.inl ⟨by rw [hevent]; exact some_ne_none _, href, hsend⟩
  | sending d rest hlist hevent hsend href =>
    exact Or.inr (Or.inr ⟨hevent, href, by rw [hsend]; exact some_ne_none _⟩)
  | refused d rest hlist hevent hsend href => exact Or.inr (Or.inl ⟨hevent, href, hsend⟩)

variable {rest : List BridgeDeferred}

/-- A packet behind others waits its turn; the event is that of the first. -/
theorem schedTiming_cons {d : BridgeDeferred} {when_ : Nat} (hlist : q.transmitList = d :: rest) :
    q.schedTiming now pkt when_ = some { q with transmitList := d :: rest ++ [⟨when_, pkt⟩] } := by
  unfold TransmitQueue.schedTiming
  rw [hlist]
  show some (TransmitQueue.mk (q.transmitList ++ _) q.sendEvent) = _
  rw [hlist]

/-- **A packet is queued.** -/
theorem accept (h : Phase now q sending refused) {when_ : Nat} (hwhen : now ≤ when_) (pkt : Packet) :
    ∃ q', q.schedTiming now pkt when_ = some q' ∧
      q'.transmitList = q.transmitList ++ [⟨when_, pkt⟩] ∧ Phase now q' sending refused := by
  cases h with
  | idle hlist hevent hsend href =>
    refine ⟨⟨[⟨when_, pkt⟩], some when_⟩, ?_, ?_, ?_⟩
    · unfold TransmitQueue.schedTiming TransmitQueue.schedule
      rw [hlist, if_pos isEmpty_nil, if_pos ⟨hevent, hwhen⟩]
      rfl
    · rw [hlist]
      rfl
    · exact .scheduled ⟨when_, pkt⟩ [] when_ rfl rfl hsend href (Nat.le_refl _) hwhen
  | scheduled d rest t hlist hevent hsend href hd ht =>
    refine ⟨_, schedTiming_cons hlist, by rw [hlist], ?_⟩
    exact .scheduled d _ t rfl hevent hsend href hd ht
  | sending d rest hlist hevent hsend href hd =>
    refine ⟨_, schedTiming_cons hlist, by rw [hlist], ?_⟩
    exact .sending d _ rfl hevent hsend href hd
  | refused d rest hlist hevent hsend href hd =>
    refine ⟨_, schedTiming_cons hlist, by rw [hlist], ?_⟩
    exact .refused d _ rfl hevent hsend href hd

/-- A due packet at the head is the one that is sent. -/
theorem try_head {d : BridgeDeferred} (hlist : q.transmitList = d :: rest) (hd : d.tick ≤ now) :
    q.trySendTiming now = some d.pkt := by
  unfold TransmitQueue.trySendTiming
  rw [hlist]
  exact if_pos hd

/-- **The event fires**: the head is sent. -/
theorem fire (h : Phase now q sending refused) (hevent : q.sendEvent = some now) :
    ∃ pkt, { q with sendEvent := none }.trySendTiming now = some pkt ∧
      Phase now { q with sendEvent := none } (some pkt) false := by
  cases h with
  | idle hlist hnone => rw [hnone] at hevent; cases hevent
  | sending d rest hlist hnone => rw [hnone] at hevent; cases hevent
  | refused d rest hlist hnone => rw [hnone] at hevent; cases hevent
  | scheduled d rest t hlist ht hsend href hd =>
    cases ht.symm.trans hevent
    exact ⟨d.pkt, try_head hlist hd, .sending d rest hlist rfl rfl rfl hd⟩

/-- **The peer asks for a retry**: the head is sent again. -/
theorem retry (h : Phase now q sending true) :
    ∃ pkt, q.trySendTiming now = some pkt ∧ Phase now q (some pkt) false := by
  cases h with
  | idle hlist hnone hsend href => cases href
  | scheduled d rest t hlist ht hsend href => cases href
  | sending d rest hlist hnone hsend href => cases href
  | refused d rest hlist hnone hsend href hd =>
    exact ⟨d.pkt, try_head hlist hd, .sending d rest hlist hnone rfl rfl hd⟩

/-- The packet of an open call is still the head of the queue. -/
theorem head_of_sending (h : Phase now q (some pkt) refused) :
    ∃ d rest, q.transmitList = d :: rest ∧ d.pkt = pkt ∧ q.sendEvent = none ∧ d.tick ≤ now := by
  cases h with
  | idle hlist hnone hsend => cases hsend
  | scheduled d rest t hlist ht hsend => cases hsend
  | refused d rest hlist hnone hsend => cases hsend
  | sending d rest hlist hnone hsend href hd =>
    exact ⟨d, rest, hlist, (some.inj hsend).symm, hnone, hd⟩

/-- **The peer takes the packet**: the next one gets its event. -/
theorem sent (h : Phase now q (some pkt) refused) {clockEdge : Nat} (hedge : now ≤ clockEdge) :
    ∃ d q', q.popFront now clockEdge = some q' ∧ d.pkt = pkt ∧
      q.transmitList = d :: q'.transmitList ∧ Phase now q' none false := by
  obtain ⟨d, rest, hlist, hpkt, hnone, -⟩ := h.head_of_sending
  unfold TransmitQueue.popFront
  rw [hlist]
  cases rest with
  | nil => exact ⟨d, _, rfl, hpkt, rfl, .idle rfl hnone rfl rfl⟩
  | cons next rest =>
    dsimp only
    rw [TransmitQueue.schedule, if_pos ⟨hnone, by omega⟩]
    refine ⟨d, _, rfl, hpkt, rfl, ?_⟩
    exact .scheduled next rest _ rfl rfl rfl rfl (by omega) (by omega)

/-- While an event or a retry is due, no call is open. -/
theorem sending_none (h : Phase now q sending refused)
    (hway : q.sendEvent ≠ none ∨ refused = true) : sending = none := by
  cases h with
  | idle _ _ hsend | scheduled _ _ _ _ _ hsend | refused _ _ _ _ hsend => exact hsend
  | sending _ _ _ hevent _ href =>
    rcases hway with hway | hway
    · exact absurd hevent hway
    · rw [href] at hway
      cases hway

/-- **The peer refuses the packet**, which stays at the head. -/
theorem refuse (h : Phase now q (some pkt) refused) : Phase now q none true := by
  obtain ⟨d, rest, hlist, -, hnone, hd⟩ := h.head_of_sending
  exact .refused d rest hlist hnone rfl rfl hd

/-- Time passes, but not past the event. -/
theorem tick (h : Phase now q sending refused) {t : Nat} (ht : now ≤ t)
    (hevent : ∀ e ∈ q.sendEvent, t ≤ e) : Phase t q sending refused := by
  cases h with
  | idle hlist hnone hsend href => exact .idle hlist hnone hsend href
  | scheduled d rest e hlist he hsend href hd =>
    exact .scheduled d rest e hlist he hsend href hd (hevent e he)
  | sending d rest hlist hnone hsend href hd =>
    exact .sending d rest hlist hnone hsend href (hd.trans ht)
  | refused d rest hlist hnone hsend href hd =>
    exact .refused d rest hlist hnone hsend href (hd.trans ht)

end Phase

/-! ## The traffic through a port -/

/-- A transmit list and its traffic: the phase, and what was accepted is what was forwarded and then what is
    on the list. -/
structure PortOk (now : Nat) (q : TransmitQueue) (t : Traffic) : Prop where
  phase : Phase now q t.sending t.refused
  order : t.accepted = t.forwarded ++ q.transmitList.map BridgeDeferred.pkt

namespace PortOk

variable {t : Traffic}

section

variable (h : PortOk now q t)

include h

theorem accept {when_ : Nat} (hwhen : now ≤ when_) (pkt : Packet) :
    ∃ q', q.schedTiming now pkt when_ = some q' ∧
      q'.transmitList = q.transmitList ++ [⟨when_, pkt⟩] ∧ PortOk now q' (t.accept pkt) := by
  obtain ⟨q', hq', hlist, hphase⟩ := h.phase.accept hwhen pkt
  refine ⟨q', hq', hlist, hphase, ?_⟩
  show t.accepted ++ [pkt] = t.forwarded ++ _
  rw [hlist, h.order, map_append, append_assoc]
  rfl

theorem fire (hevent : q.sendEvent = some now) :
    ∃ pkt, { q with sendEvent := none }.trySendTiming now = some pkt ∧
      PortOk now { q with sendEvent := none } (t.call pkt) := by
  obtain ⟨pkt, hpkt, hphase⟩ := h.phase.fire hevent
  exact ⟨pkt, hpkt, hphase, h.order⟩

theorem retry (href : t.refused = true) :
    ∃ pkt, q.trySendTiming now = some pkt ∧ PortOk now q (t.call pkt) := by
  have hphase := h.phase
  rw [href] at hphase
  obtain ⟨pkt, hpkt, hphase⟩ := hphase.retry
  exact ⟨pkt, hpkt, hphase, h.order⟩

theorem sent (hsend : t.sending.isSome = true) {clockEdge : Nat} (hedge : now ≤ clockEdge) :
    ∃ d q', q.popFront now clockEdge = some q' ∧ q.transmitList = d :: q'.transmitList ∧
      t.sending = some d.pkt ∧ PortOk now q' t.forward := by
  obtain ⟨pkt, hpkt⟩ := isSome_iff_exists.mp hsend
  have hphase := h.phase
  rw [hpkt] at hphase
  obtain ⟨d, q', hq', rfl, hlist, hphase'⟩ := hphase.sent hedge
  have href : t.refused = false := by
    rcases h.phase.oneWay (by rw [hlist]; exact cons_ne_nil _ _) with h | h | h
    · exact h.2.1
    · rw [hpkt] at h; cases h.2.2
    · exact h.2.1
  refine ⟨d, q', hq', hlist, hpkt, ?_, ?_⟩
  · show Phase now q' none t.refused
    rw [href]
    exact hphase'
  · show t.accepted = t.forwarded ++ t.sending.toList ++ _
    rw [h.order, hlist, hpkt, append_assoc]
    rfl

theorem refuse (hsend : t.sending.isSome = true) : PortOk now q t.refuse := by
  obtain ⟨pkt, hpkt⟩ := isSome_iff_exists.mp hsend
  have hphase := h.phase
  rw [hpkt] at hphase
  exact ⟨hphase.refuse, h.order⟩

theorem tick {t' : Nat} (ht : now ≤ t') (hevent : ∀ e ∈ q.sendEvent, t' ≤ e) : PortOk t' q t :=
  ⟨h.phase.tick ht hevent, h.order⟩

/-- No more packets have been handed on than were accepted. -/
theorem handed_countP_le (f : Packet → Bool) : t.handed.countP f ≤ t.accepted.countP f := by
  unfold Traffic.handed
  rw [h.order, countP_append, countP_append]
  cases hsend : t.sending with
  | none => simp
  | some pkt =>
    have hphase := h.phase
    rw [hsend] at hphase
    obtain ⟨d, rest, hlist, rfl, -⟩ := hphase.head_of_sending
    rw [hlist, map_cons, countP_cons, toList_some, countP_singleton]
    omega

end

end PortOk

/-! ## The bridge -/

namespace BridgeRun

variable {p : BridgeParams} {s s' : BridgeRun}

/-- The traffic of both ports, the room in both queues, and why a requester waits. -/
structure Safe (p : BridgeParams) (s : BridgeRun) : Prop where
  req : PortOk s.now s.bridge.master s.req
  resp : PortOk s.now s.bridge.slave s.resp
  room : s.bridge.master.transmitList.length ≤ p.reqQueueLimit
  owed : s.req.accepted.countP expectsResponse = s.bridge.outstandingResponses + s.resp.forwarded.length
  limit : s.bridge.outstandingResponses ≤ p.respQueueLimit
  answers : s.resp.accepted.length ≤ s.req.handed.countP expectsResponse
  stall : s.bridge.retryReq = s.stalled
  reason : s.bridge.retryReq = true → s.bridge.master.transmitList ≠ [] ∨ 0 < s.bridge.outstandingResponses

theorem safe_start : start.Safe p where
  req := ⟨.idle rfl rfl rfl rfl, rfl⟩
  resp := ⟨.idle rfl rfl rfl rfl, rfl⟩
  room := Nat.zero_le _
  owed := rfl
  limit := Nat.zero_le _
  answers := Nat.le_refl _
  stall := rfl
  reason := nofun

variable {clockEdge : Nat}

/-- **A request is accepted**, with a place kept for its response. -/
theorem Safe.admit (h : s.Safe p) {n : Nat} (hedge : s.now ≤ clockEdge) (hstall : s.stalled = false)
    (hroom : s.bridge.master.transmitList.length ≠ p.reqQueueLimit)
    (hn : n = s.bridge.outstandingResponses + if expectsResponse pkt then 1 else 0) (hlimit : n ≤ p.respQueueLimit) :
    ∃ b, { s.bridge with outstandingResponses := n }.schedTimingReq p s.now pkt clockEdge = some b ∧
      ({ s with bridge := b, stalled := false, req := s.req.accept pkt } : BridgeRun).Safe p := by
  obtain ⟨q, hq, hlist, hport⟩ := h.req.accept hedge pkt
  refine ⟨{ s.bridge with outstandingResponses := n, master := q }, ?_, hport, h.resp, ?_, ?_, hlimit,
    h.answers, h.stall.trans hstall, ?_⟩
  · unfold Bridge.schedTimingReq
    rw [if_pos hroom]
    show (s.bridge.master.schedTiming _ _ _).map _ = _
    rw [hq]
    rfl
  · show q.transmitList.length ≤ _
    rw [hlist, length_append]
    have := h.room
    simp only [length_singleton]
    omega
  · show (s.req.accepted ++ [pkt]).countP _ = n + _
    rw [countP_append, h.owed, countP_singleton]
    show _ = _ + s.resp.forwarded.length
    omega
  · intro _
    left
    show q.transmitList ≠ []
    rw [hlist]
    exact append_ne_nil_of_right_ne_nil _ (cons_ne_nil _ _)

/-- **A request is refused** for want of room, and its sender will be told to retry. -/
theorem Safe.deny (h : s.Safe p) (hwhy : s.bridge.master.transmitList ≠ [] ∨ 0 < s.bridge.outstandingResponses) :
    ({ s with bridge := { s.bridge with retryReq := true }, stalled := true } : BridgeRun).Safe p :=
  { h with stall := rfl, reason := fun _ => hwhy }

/-- A request arrives. -/
theorem Safe.recvTimingReq (hreq : 0 < p.reqQueueLimit) (hresp : 0 < p.respQueueLimit)
    (h : s.Safe p) (hleg : s.Legal (.recvTimingReq pkt clockEdge)) :
    ∃ s', s.step p (.recvTimingReq pkt clockEdge) = some s' ∧ s'.Safe p := by
  obtain ⟨hstall, hedge⟩ := hleg
  have hretry : ¬ s.bridge.retryReq = true := by rw [h.stall, hstall]; decide
  unfold step Bridge.recvTimingReq
  dsimp only
  rw [if_neg hretry]
  by_cases hfull : s.bridge.reqQueueFull p = true
  · rw [if_pos hfull]
    refine ⟨_, rfl, h.deny (Or.inl ?_)⟩
    intro hnil
    unfold Bridge.reqQueueFull at hfull
    rw [hnil, beq_iff_eq, length_nil] at hfull
    omega
  rw [if_neg hfull]
  have hroom : s.bridge.master.transmitList.length ≠ p.reqQueueLimit := by
    intro heq
    exact hfull (beq_iff_eq.mpr heq)
  by_cases hexp : expectsResponse pkt = true
  · rw [if_pos hexp]
    by_cases hrfull : s.bridge.respQueueFull p = true
    · rw [if_pos hrfull]
      refine ⟨_, rfl, h.deny (Or.inr ?_)⟩
      have := beq_iff_eq.mp hrfull
      omega
    · rw [if_neg hrfull]
      have hne : s.bridge.outstandingResponses ≠ p.respQueueLimit := by
        intro heq
        exact hrfull (beq_iff_eq.mpr heq)
      have hlimit := h.limit
      obtain ⟨b, hb, hsafe⟩ := h.admit (n := s.bridge.outstandingResponses + 1) hedge hstall hroom
        (by rw [if_pos hexp]) (by omega)
      rw [hb]
      exact ⟨_, rfl, hsafe⟩
  · rw [if_neg hexp]
    obtain ⟨b, hb, hsafe⟩ := h.admit (n := s.bridge.outstandingResponses) hedge hstall hroom
      (by rw [if_neg hexp]; rfl) h.limit
    rw [hb]
    exact ⟨_, rfl, hsafe⟩

/-- A response arrives, and finds its place kept. -/
theorem Safe.recvTimingResp (h : s.Safe p) (hleg : s.Legal (.recvTimingResp pkt clockEdge)) :
    ∃ s', s.step p (.recvTimingResp pkt clockEdge) = some s' ∧ s'.Safe p := by
  obtain ⟨q, hq, -, hport⟩ := h.resp.accept hleg.2 pkt
  refine ⟨{ s with bridge := { s.bridge with slave := q }, resp := s.resp.accept pkt }, ?_,
    { h with resp := hport, answers := ?_ }⟩
  · unfold step Bridge.recvTimingResp Bridge.schedTimingResp
    dsimp only
    rw [hq]
    rfl
  · show (s.resp.accepted ++ [pkt]).length ≤ _
    rw [length_append]
    exact hleg.1

/-- A request is offered to the memory side. -/
theorem Safe.callReq (h : s.Safe p) (hpkt : q.trySendTiming s.now = some pkt)
    (hport : PortOk s.now q (s.req.call pkt))
    (hlist : q.transmitList = s.bridge.master.transmitList) (hsend : s.req.sending = none) :
    ∃ s', s.callReq q = some s' ∧ s'.Safe p := by
  refine ⟨{ s with bridge := { s.bridge with master := q }, req := s.req.call pkt }, ?_, hport, h.resp,
    ?_, h.owed, h.limit, ?_, h.stall, ?_⟩
  · unfold BridgeRun.callReq
    rw [hpkt]
    rfl
  · show q.transmitList.length ≤ _
    rw [hlist]
    exact h.room
  · have hle := h.answers
    unfold Traffic.handed at hle
    rw [hsend, toList_none, append_nil] at hle
    show _ ≤ (s.req.forwarded ++ [pkt]).countP _
    rw [countP_append]
    exact hle.trans (Nat.le_add_right _ _)
  · show _ → q.transmitList ≠ [] ∨ _
    rw [hlist]
    exact h.reason

/-- A response is offered to the CPU side. -/
theorem Safe.callResp (h : s.Safe p) (hpkt : q.trySendTiming s.now = some pkt)
    (hport : PortOk s.now q (s.resp.call pkt)) : ∃ s', s.callResp q = some s' ∧ s'.Safe p := by
  refine ⟨{ s with bridge := { s.bridge with slave := q }, resp := s.resp.call pkt }, ?_,
    { h with resp := hport }⟩
  unfold BridgeRun.callResp
  rw [hpkt]
  rfl

/-- The memory side answers; a request that it takes makes room, and whoever was refused is told. -/
theorem Safe.reqReturn (h : s.Safe p) {success : Bool} (hleg : s.Legal (.reqReturn success clockEdge)) :
    ∃ s', s.step p (.reqReturn success clockEdge) = some s' ∧ s'.Safe p ∧ (success = true → s'.stalled = false) := by
  obtain ⟨hsend, hedge, hanswers⟩ := hleg
  cases success with
  | false =>
    refine ⟨_, rfl, { h with req := h.req.refuse hsend, answers := ?_ }, ?_⟩
    · show _ ≤ (s.req.forwarded ++ []).countP _
      rw [append_nil]
      exact hanswers rfl
    · intro hf
      cases hf
  | true =>
    obtain ⟨d, q, hq, hlist, hpkt, hport⟩ := h.req.sent hsend hedge
    have hstall := h.stall
    refine ⟨{ s with bridge := { s.bridge with master := q, retryReq := false }, stalled := false,
                     req := s.req.forward }, ?_, ⟨hport, h.resp, ?_, h.owed, h.limit, ?_, rfl, ?_⟩, fun _ => rfl⟩
    · unfold step Bridge.reqSent
      dsimp only
      rw [hq, map_some, map_some]
      unfold Bridge.retryStalledReq
      cases hr : s.bridge.retryReq with
      | false =>
        rw [hr] at hstall
        rw [← hstall]
        rfl
      | true =>
        rw [if_pos rfl]
        rw [Bool.not_true, Bool.and_false]
    · have hroom := h.room
      rw [hlist, length_cons] at hroom
      show q.transmitList.length ≤ _
      omega
    · show _ ≤ (s.req.forwarded ++ s.req.sending.toList ++ []).countP _
      rw [append_nil]
      exact h.answers
    · intro hf
      cases hf

/-- The CPU side answers; a response that it takes frees the place that was kept. -/
theorem Safe.respReturn (hreq : 0 < p.reqQueueLimit) (h : s.Safe p) {success : Bool}
    (hleg : s.Legal (.respReturn success clockEdge)) :
    ∃ s', s.step p (.respReturn success clockEdge) = some s' ∧ s'.Safe p ∧
      (success = true → s'.stalled = true → s'.bridge.reqQueueFull p = true) := by
  obtain ⟨hsend, hedge⟩ := hleg
  cases success with
  | false =>
    refine ⟨_, rfl, { h with resp := h.resp.refuse hsend }, ?_⟩
    intro hf
    cases hf
  | true =>
    obtain ⟨d, q, hq, hlist, hpkt, hport⟩ := h.resp.sent hsend hedge
    -- the response that is sent is one that is owed
    have hpos : s.bridge.outstandingResponses ≠ 0 := by
      have horder := congrArg length h.resp.order
      rw [hlist, length_append, map_cons, length_cons] at horder
      have := h.answers
      have := h.req.handed_countP_le expectsResponse
      have := h.owed
      omega
    have howed : s.req.accepted.countP expectsResponse =
        s.bridge.outstandingResponses - 1 + s.resp.forward.forwarded.length := by
      show _ = _ + (s.resp.forwarded ++ s.resp.sending.toList).length
      rw [hpkt, length_append, h.owed, toList_some, length_singleton]
      omega
    have hlimit := h.limit
    have hstall := h.stall
    unfold step Bridge.respSent
    dsimp only
    rw [if_pos hpos, hq, map_some, map_some]
    have hfull : Bridge.reqQueueFull p { s.bridge with
        slave := q, outstandingResponses := s.bridge.outstandingResponses - 1 } = s.bridge.reqQueueFull p := rfl
    dsimp only at hfull ⊢
    rw [hfull]
    by_cases hretry : (!s.bridge.reqQueueFull p && s.bridge.retryReq) = true
    · -- there is room in the request queue, so the requester is told
      rw [if_pos hretry]
      refine ⟨_, rfl, ⟨h.req, hport, h.room, howed, ?_, h.answers, ?_, ?_⟩, ?_⟩
      · show s.bridge.outstandingResponses - 1 ≤ _
        omega
      · show false = (s.stalled && !true)
        rw [Bool.not_true, Bool.and_false]
      · intro hf
        cases hf
      · intro _ hf
        rw [Bool.not_true, Bool.and_false] at hf
        cases hf
    · have hwhy : s.bridge.retryReq = true → s.bridge.reqQueueFull p = true := by
        intro hr
        rw [hr, Bool.and_true, Bool.not_eq_true', Bool.not_eq_false] at hretry
        exact hretry
      rw [if_neg hretry]
      refine ⟨_, rfl, ⟨h.req, hport, h.room, howed, ?_, h.answers, ?_, ?_⟩, ?_⟩
      · show s.bridge.outstandingResponses - 1 ≤ _
        omega
      · show s.bridge.retryReq = (s.stalled && !false)
        rw [Bool.not_false, Bool.and_true, hstall]
      · intro hr
        left
        show s.bridge.master.transmitList ≠ []
        intro hnil
        have hfull := hwhy hr
        unfold Bridge.reqQueueFull at hfull
        rw [hnil, beq_iff_eq, length_nil] at hfull
        omega
      · intro _ hr
        rw [Bool.not_false, Bool.and_true, ← hstall] at hr
        exact hwhy hr

/-- **One call**: it goes through, and both ports are in order after it. -/
theorem Safe.step (hreq : 0 < p.reqQueueLimit) (hresp : 0 < p.respQueueLimit) (h : s.Safe p)
    {c : BridgeCall} (hleg : s.Legal c) : ∃ s', s.step p c = some s' ∧ s'.Safe p := by
  cases c with
  | recvTimingReq pkt clockEdge => exact h.recvTimingReq hreq hresp hleg
  | recvTimingResp pkt clockEdge => exact h.recvTimingResp hleg
  | reqEvent =>
    obtain ⟨pkt, hpkt, hport⟩ := h.req.fire hleg
    have hevent : s.bridge.master.sendEvent = some s.now := hleg
    refine h.callReq hpkt hport rfl (h.req.phase.sending_none (Or.inl ?_))
    rw [hevent]
    exact some_ne_none _
  | respEvent =>
    obtain ⟨pkt, hpkt, hport⟩ := h.resp.fire hleg
    exact h.callResp hpkt hport
  | recvReqRetry =>
    obtain ⟨pkt, hpkt, hport⟩ := h.req.retry hleg
    exact h.callReq hpkt hport rfl (h.req.phase.sending_none (Or.inr hleg))
  | recvRespRetry =>
    obtain ⟨pkt, hpkt, hport⟩ := h.resp.retry hleg
    exact h.callResp hpkt hport
  | reqReturn success clockEdge =>
    obtain ⟨s', hs', hsafe, -⟩ := h.reqReturn hleg
    exact ⟨s', hs', hsafe⟩
  | respReturn success clockEdge =>
    obtain ⟨s', hs', hsafe, -⟩ := h.respReturn hreq hleg
    exact ⟨s', hs', hsafe⟩
  | tick t =>
    obtain ⟨hle, hmaster, hslave⟩ := hleg
    exact ⟨_, rfl, { h with req := h.req.tick hle hmaster, resp := h.resp.tick hle hslave }⟩

/-- **Every run is safe**, by induction over its calls. -/
theorem safe_of_run (hreq : 0 < p.reqQueueLimit) (hresp : 0 < p.respQueueLimit) {cs : List BridgeCall}
    (h : Run (Guarded (stepOf (BridgeRun.step p)) Legal) start cs s) : s.Safe p := by
  refine h.inv ?_ safe_start
  rintro s c s' hs ⟨hstep, hleg⟩
  obtain ⟨s'', hs'', hsafe⟩ := hs.step hreq hresp hleg
  cases hs''.symm.trans hstep
  exact hsafe

/-- What the bridge promises in a state: both ways of traffic are in order, the owed responses are counted and
    limited, every packet that waits will get on, and so will a refused requester. -/
structure Sound (p : BridgeParams) (s : BridgeRun) : Prop where
  reqOrder : s.req.accepted = s.req.forwarded ++ s.bridge.master.transmitList.map BridgeDeferred.pkt
  respOrder : s.resp.accepted = s.resp.forwarded ++ s.bridge.slave.transmitList.map BridgeDeferred.pkt
  owed : s.req.accepted.countP expectsResponse = s.bridge.outstandingResponses + s.resp.forwarded.length
  limit : s.bridge.outstandingResponses ≤ p.respQueueLimit
  reqWay : OneWay s.bridge.master s.req
  respWay : OneWay s.bridge.slave s.resp
  waits : s.bridge.retryReq = s.stalled
  reason : s.bridge.retryReq = true → s.bridge.master.transmitList ≠ [] ∨ 0 < s.bridge.outstandingResponses

/-- **Nothing is lost, nothing is duplicated, and no requester is forgotten.**  If both queues have room for
    something, then in every state of every run of legal calls, nested in any way: requests and responses
    are forwarded once each and in the order of their acceptance; `outstandingResponses` is the number of
    accepted requests whose response has not been forwarded, and within the limit; a list that is not
    empty has its event scheduled, or is in an open send, or waits for a retry, and only one of these; if
    a requester waits, then the request queue is not empty or a response is owed, and the next request
    that is sent lets it retry, and the next response too, if the request queue is not full; and every
    legal call goes through without a failed assertion. -/
theorem bridge_sound (hreq : 0 < p.reqQueueLimit) (hresp : 0 < p.respQueueLimit) {cs : List BridgeCall}
    (h : Run (Guarded (stepOf (BridgeRun.step p)) Legal) start cs s) : s.Sound p ∧
      (∀ c, s.Legal c → ∃ s', s.step p c = some s') ∧
      (∀ e s', s.Legal (.reqReturn true e) → s.step p (.reqReturn true e) = some s' → s'.stalled = false) ∧
      ∀ e s', s.Legal (.respReturn true e) → s.step p (.respReturn true e) = some s' →
        s'.stalled = true → s'.bridge.reqQueueFull p = true := by
  have hsafe := safe_of_run hreq hresp h
  refine ⟨⟨hsafe.req.order, hsafe.resp.order, hsafe.owed, hsafe.limit, hsafe.req.phase.oneWay,
    hsafe.resp.phase.oneWay, hsafe.stall, hsafe.reason⟩, ?_, ?_, ?_⟩
  · intro c hleg
    obtain ⟨s', hs', -⟩ := hsafe.step hreq hresp hleg
    exact ⟨s', hs'⟩
  · intro e s' hleg hstep
    obtain ⟨s'', hs'', -, hclear⟩ := hsafe.reqReturn hleg
    cases hs''.symm.trans hstep
    exact hclear rfl
  · intro e s' hleg hstep
    obtain ⟨s'', hs'', -, hclear⟩ := hsafe.respReturn hreq hleg
    cases hs''.symm.trans hstep
    exact hclear rfl

/-- A request to read four bytes at an address. -/
def readAt (a : Nat) : Packet :=
  .ofRequest ⟨a, 4, 0, 0, false, false, false, false, false⟩ .readReq fun _ => 0

/-- Two reads through a bridge with room for one: the second is refused; the first is refused by the peer and
    sent again after a retry; its response comes before that send has returned, and the requester,
    told to retry, is refused once more, until the response is out. -/
def nestedReads : List BridgeCall :=
  [.recvTimingReq (readAt 0) 2, .recvTimingReq (readAt 4) 2, .tick 2, .reqEvent, .reqReturn false 3,
    .recvReqRetry, .recvTimingResp (readAt 0).makeResponse 4, .reqReturn true 3,
    .recvTimingReq (readAt 4) 4, .tick 4, .respEvent, .respReturn true 4, .recvTimingReq (readAt 4) 5]

theorem bridge_sound_nested_reads :
    ∃ s, exec (guardFn (BridgeRun.step ⟨1, 1⟩) Legal) start nestedReads = some s ∧ s.Sound ⟨1, 1⟩ ∧
      s.req.accepted.length = 2 ∧ s.resp.forwarded.length = 1 ∧ s.bridge.outstandingResponses = 1 := by
  refine exec_observe (fun s => (s.req.accepted.length, s.resp.forwarded.length, s.bridge.outstandingResponses))
    (2, 1, 1) (by decide +kernel) fun s hs hd => ?_
  have hrun := exec_guardFn_iff.mp hs
  exact ⟨(bridge_sound (by decide) (by decide) hrun).1, congrArg Prod.fst hd,
    congrArg (fun x => x.2.1) hd, congrArg (fun x => x.2.2) hd⟩

/-- **A bridge without room refuses its first request for good**: nothing is queued and nothing is owed, so no
    send will ever clear the flag.  It is enough that one of the two limits is zero. -/
theorem requester_forgotten_without_room :
    (∃ s, exec (guardFn (BridgeRun.step ⟨0, 1⟩) Legal) start [.recvTimingReq (readAt 0) 2] = some s ∧
      s.bridge.retryReq = true ∧ s.bridge.master.transmitList = [] ∧ s.bridge.outstandingResponses = 0) ∧
    ∃ s, exec (guardFn (BridgeRun.step ⟨1, 0⟩) Legal) start [.recvTimingReq (readAt 0) 2] = some s ∧
      s.bridge.retryReq = true ∧ s.bridge.master.transmitList = [] ∧ s.bridge.outstandingResponses = 0 :=
  ⟨⟨_, rfl, rfl, rfl, rfl⟩, ⟨_, rfl, rfl, rfl, rfl⟩⟩

end BridgeRun

end NvpSim.Mem
