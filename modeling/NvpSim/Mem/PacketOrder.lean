/-
  The packet queue keeps its packets in order and loses none.

  `Before` is the order of the list: by tick, and first come first among equal ticks; and nothing that came
  earlier is behind a packet that was forced into order.

  A run interleaves the calls of the owner with what its peer does, also from within a send that is open: then the
  packet is neither in the list nor sent, and `pending` counts it in front.  One step keeps the invariant
  (`inv_step`) if no refusal is reported while the event is scheduled; where one is, the queue waits for a retry
  AND has its event scheduled.
-/
import Mathlib.Data.List.Perm.Basic
import NvpSim.Mem.PacketQueue

namespace NvpSim.Mem

open NvpSim.Lib NvpSim.Sim PacketQueue List Option

variable {Pkt : Type}

/-! ## Where a packet goes -/

/-- The place of a packet: behind those that are not later, in front of those that are. -/
structure Placed (dp : DeferredPacket Pkt) (list list' : List (DeferredPacket Pkt)) : Prop where
  split : ∃ pre post, list = pre ++ post ∧ list' = pre ++ dp :: post ∧
    (∀ a ∈ pre, a.tick ≤ dp.tick) ∧ ∀ b ∈ post, dp.tick < b.tick

section Place

variable {dp : DeferredPacket Pkt} {list list' : List (DeferredPacket Pkt)}

/-- Sorted by tick. -/
def ByTick (list : List (DeferredPacket Pkt)) : Prop := list.Pairwise fun a b => a.tick ≤ b.tick

theorem le_backTick (h : ByTick list) : ∀ a ∈ list, a.tick ≤ backTick list := by
  induction list with
  | nil => intro a ha; cases ha
  | cons x rest ih =>
    obtain ⟨hx, hrest⟩ := pairwise_cons.mp h
    intro a ha
    cases rest with
    | nil =>
      rw [mem_singleton.mp ha]
      exact Nat.le_refl _
    | cons y rest =>
      show a.tick ≤ backTick (y :: rest)
      rcases mem_cons.mp ha with rfl | ha
      · exact Nat.le_trans (hx y mem_cons_self) (ih hrest y mem_cons_self)
      · exact ih hrest a ha

theorem backTick_mem (h : list ≠ []) : ∃ a ∈ list, a.tick = backTick list := by
  induction list with
  | nil => exact absurd rfl h
  | cons x rest ih =>
    cases rest with
    | nil => exact ⟨x, mem_cons_self, rfl⟩
    | cons y rest =>
      obtain ⟨a, ha, heq⟩ := ih (by simp)
      exact ⟨a, mem_cons_of_mem _ ha, heq⟩

theorem placed_front (h : ∀ b ∈ list, dp.tick < b.tick) : Placed dp list (dp :: list) :=
  ⟨[], list, rfl, rfl, nofun, h⟩

theorem placed_back (h : ∀ a ∈ list, a.tick ≤ dp.tick) : Placed dp list (list ++ [dp]) :=
  ⟨list, [], (append_nil _).symm, rfl, h, nofun⟩

theorem Placed.cons {x : DeferredPacket Pkt} (h : Placed dp list list') (hx : x.tick ≤ dp.tick) :
    Placed dp (x :: list) (x :: list') := by
  obtain ⟨pre, post, rfl, rfl, hpre, hpost⟩ := h
  exact ⟨x :: pre, post, rfl, rfl, forall_mem_cons.mpr ⟨hx, hpre⟩, hpost⟩

theorem placed_insertSorted (h : ByTick list) : Placed dp list (insertSorted dp list) := by
  induction list with
  | nil => exact placed_front nofun
  | cons x rest ih =>
    obtain ⟨hx, hrest⟩ := pairwise_cons.mp h
    unfold insertSorted
    split
    · rename_i hle
      exact (ih hrest).cons hle
    · rename_i hlt
      refine placed_front fun b hb => ?_
      rcases mem_cons.mp hb with rfl | hb
      · exact Nat.lt_of_not_le hlt
      · exact Nat.lt_of_lt_of_le (Nat.lt_of_not_le hlt) (hx b hb)

theorem Placed.perm (h : Placed dp list list') : list'.Perm (dp :: list) := by
  obtain ⟨pre, post, rfl, rfl, -⟩ := h
  exact perm_middle

end Place

/-- What `schedSendEvent` makes of the event: the earlier of the two ticks. -/
def earlier (e : Option Nat) (t : Nat) : Nat :=
  match e with
  | none => t
  | some e => if t < e then t else e

theorem schedSendEvent_eq {q : PacketQueue Pkt} {now t : Nat} (hw : q.waitingOnRetry = false) (ht : t ≠ maxTick) :
    q.schedSendEvent now t = some { q with sendEvent := some (earlier q.sendEvent (max t (now + 1))) } := by
  obtain ⟨list, event, dm, waiting⟩ := q
  cases hw
  unfold schedSendEvent
  rw [if_neg (by simp), if_pos ht]
  cases event with
  | none => rfl
  | some e =>
    dsimp only [earlier]
    split <;> rfl

theorem earlier_spec {e : Option Nat} {t : Nat} (now : Nat) (he : ∀ e' ∈ e, now ≤ e' ∧ t ≤ e') :
    now ≤ earlier e (max t (now + 1)) ∧ t ≤ earlier e (max t (now + 1)) := by
  cases e with
  | none => dsimp only [earlier]; omega
  | some e =>
    obtain ⟨hnow, ht⟩ := he e rfl
    dsimp only [earlier]
    split <;> omega

theorem forcedTick_spec {list : List (DeferredPacket Pkt)} {when_ : Nat} (force : Bool)
    (hsorted : ByTick list) (hmax : when_ < maxTick) (hlist : ∀ a ∈ list, a.tick < maxTick) :
    when_ ≤ forcedTick list when_ force ∧ forcedTick list when_ force < maxTick ∧
      (force = true → ∀ a ∈ list, a.tick ≤ forcedTick list when_ force) := by
  cases force with
  | false => exact ⟨Nat.le_refl _, hmax, nofun⟩
  | true =>
    cases list with
    | nil => exact ⟨Nat.le_refl _, hmax, nofun⟩
    | cons x rest =>
      obtain ⟨b, hb, hbt⟩ := backTick_mem (cons_ne_nil x rest)
      have hbmax := hlist b hb
      refine ⟨Nat.le_max_left _ _, Nat.max_lt.mpr ⟨hmax, hbt ▸ hbmax⟩, fun _ a ha => ?_⟩
      exact Nat.le_trans (le_backTick hsorted a ha) (Nat.le_max_right _ _)

/-- **What the end of a send does** if the peer took the packet: the event is scheduled for the front. -/
theorem sendEnd_success {q : PacketQueue Pkt} (now : Nat) (dp : DeferredPacket Pkt)
    (hw : q.waitingOnRetry = false) (hmax : ∀ a ∈ q.transmitList.head?, a.tick < maxTick) :
    ∃ q', q.sendEnd now dp true = some q' ∧ q'.transmitList = q.transmitList ∧ q'.waitingOnRetry = false ∧
      ((q.transmitList = [] ∧ q'.sendEvent = q.sendEvent) ∨ ∃ a ∈ q.transmitList.head?,
          q'.sendEvent = some (earlier q.sendEvent (max a.tick (now + 1)))) := by
  obtain ⟨list, event, dm, waiting⟩ := q
  cases hw
  cases list with
  | nil => exact ⟨_, rfl, rfl, rfl, Or.inl ⟨rfl, rfl⟩⟩
  | cons a rest =>
    have hne : a.tick ≠ maxTick := Nat.ne_of_lt (hmax a rfl)
    exact ⟨_, schedSendEvent_eq (q := ⟨a :: rest, event, dm, false⟩) rfl hne, rfl, rfl, Or.inr ⟨a, rfl, rfl⟩⟩

/-- **What `schedSendTiming` does**: it places the packet, and if it is the new front the event is
    scheduled no later than for it. -/
theorem schedSendTiming_spec (isExpressSnoop : Pkt → Bool) (q : PacketQueue Pkt)
    {now when_ : Nat} (pkt : Pkt) (force : Bool) (hsorted : ByTick q.transmitList)
    (hnow : now ≤ when_) (hpkt : isExpressSnoop pkt = false) (hmax : when_ < maxTick)
    (hlist : ∀ a ∈ q.transmitList, a.tick < maxTick) (hlen : q.transmitList.length ≤ 100)
    (hwait : q.waitingOnRetry = true → ∃ a ∈ q.transmitList.head?, a.tick ≤ now) :
    ∃ q' t, q.schedSendTiming isExpressSnoop now pkt when_ force = some q' ∧
      when_ ≤ t ∧ t < maxTick ∧ Placed ⟨t, pkt⟩ q.transmitList q'.transmitList ∧
      (force = true → q'.transmitList = q.transmitList ++ [⟨t, pkt⟩]) ∧ q'.waitingOnRetry = q.waitingOnRetry ∧
      ((q'.sendEvent = q.sendEvent ∧ ∃ a ∈ q.transmitList.head?, a.tick ≤ t ∧ q'.transmitList.head? = some a) ∨
        (q.waitingOnRetry = false ∧ (∀ b ∈ q.transmitList, t < b.tick) ∧ q'.transmitList.head? = some ⟨t, pkt⟩ ∧
          q'.sendEvent = some (earlier q.sendEvent (max t (now + 1))))) := by
  obtain ⟨hle, hlt, hlast⟩ := forcedTick_spec force hsorted hmax hlist
  have hne : forcedTick q.transmitList when_ force ≠ maxTick := Nat.ne_of_lt hlt
  unfold schedSendTiming
  rw [if_pos ⟨hnow, hpkt, hlen⟩]
  generalize forcedTick q.transmitList when_ force = t at hle hlt hlast hne ⊢
  cases hq : q.transmitList with
  | nil =>
    -- nothing on the list: schedule an event
    have hw : q.waitingOnRetry = false := by
      by_contra hw
      obtain ⟨a, ha, -⟩ := hwait (Bool.of_not_eq_false hw)
      rw [hq] at ha
      cases ha
    have hlater : ∀ b ∈ ([] : List (DeferredPacket Pkt)), t < b.tick := nofun
    exact ⟨_, t, schedSendEvent_eq (q := { q with transmitList := [⟨t, pkt⟩] }) hw hne, hle, hlt,
      placed_front hlater, fun _ => rfl, rfl, Or.inr ⟨hw, hlater, rfl, rfl⟩⟩
  | cons front rest =>
    rw [hq] at hsorted hlast hwait
    dsimp only
    obtain ⟨hfront, hrest⟩ := pairwise_cons.mp hsorted
    by_cases hearly : t < front.tick
    · -- earlier than the front: not forced, and not waiting for a retry
      have hnot : force = false := by
        by_contra hf
        exact absurd (hlast (Bool.of_not_eq_false hf) front mem_cons_self) (Nat.not_le_of_lt hearly)
      have hw : q.waitingOnRetry = false := by
        by_contra hw
        obtain ⟨a, ha, hle'⟩ := hwait (Bool.of_not_eq_false hw)
        cases ha
        omega
      have hlater : ∀ b ∈ front :: rest, t < b.tick :=
        forall_mem_cons.mpr ⟨hearly, fun b hb => Nat.lt_of_lt_of_le hearly (hfront b hb)⟩
      simp only [hearly, if_true, hnot, Bool.false_eq_true, if_false]
      exact ⟨_, t, schedSendEvent_eq (q := { q with transmitList := ⟨t, pkt⟩ :: front :: rest }) hw
        hne, hle, hlt, placed_front hlater, nofun, rfl, Or.inr ⟨hw, hlater, rfl, rfl⟩⟩
    · have hge : front.tick ≤ t := Nat.le_of_not_lt hearly
      rw [if_neg hearly]
      by_cases hback : backTick (front :: rest) ≤ t
      · rw [if_pos hback]
        refine ⟨_, t, rfl, hle, hlt, placed_back fun a ha => ?_, fun _ => rfl, rfl,
          Or.inl ⟨rfl, front, rfl, hge, rfl⟩⟩
        exact Nat.le_trans (le_backTick hsorted a ha) hback
      · have hnot : force = false := by
          by_contra hf
          obtain ⟨b, hb, hbt⟩ := backTick_mem (cons_ne_nil front rest)
          exact hback (hbt ▸ hlast (Bool.of_not_eq_false hf) b hb)
        rw [if_neg hback, hnot]
        exact ⟨_, t, rfl, hle, hlt, (placed_insertSorted hrest).cons hge, nofun, rfl,
          Or.inl ⟨rfl, front, rfl, hge, rfl⟩⟩

/-! ## The order of a run -/

/-- `a` goes before `b` and has not overtaken it, unless it was not forced into order. -/
def OrderKept (a b : Numbered Pkt) : Prop := a.forced = true → a.seq < b.seq

/-- The order of the list: by tick, first come first among equals; and what came before a forced packet
    is not behind it. -/
def Before (a b : DeferredPacket (Numbered Pkt)) : Prop :=
  (a.tick < b.tick ∨ (a.tick = b.tick ∧ a.pkt.seq < b.pkt.seq)) ∧ OrderKept a.pkt b.pkt

theorem Before.tick_le {a b : DeferredPacket (Numbered Pkt)} (h : Before a b) : a.tick ≤ b.tick := by
  rcases h.1 with h | h <;> omega

/-- **Placing the newest packet keeps the order.** -/
theorem Placed.pairwise {dp : DeferredPacket (Numbered Pkt)}
    {front list list' : List (DeferredPacket (Numbered Pkt))} (h : Placed dp list list')
    (horder : (front ++ list).Pairwise Before)
    (hseq : ∀ a ∈ front ++ list, a.pkt.seq < dp.pkt.seq) (hfront : ∀ a ∈ front, a.tick ≤ dp.tick)
    (hforced : dp.pkt.forced = true → list' = list ++ [dp]) : (front ++ list').Pairwise Before := by
  obtain ⟨pre, post, rfl, rfl, hpre, hpost⟩ := h
  rw [← append_assoc] at horder hseq
  obtain ⟨hleft, hright, hacross⟩ := pairwise_append.mp horder
  have hleft' : ∀ a ∈ front ++ pre, Before a dp := by
    intro a ha
    have hlt := hseq a (mem_append_left _ ha)
    have hle : a.tick ≤ dp.tick := (mem_append.mp ha).elim (hfront a) (hpre a)
    exact ⟨by omega, fun _ => hlt⟩
  -- nothing is behind a forced packet
  have hnil : dp.pkt.forced = true → post = [] := by
    intro hf
    have heq : dp :: post = post ++ [dp] := by
      have := hforced hf
      rwa [append_assoc, append_cancel_left_eq] at this
    cases post with
    | nil => rfl
    | cons b post =>
      have hlt := hpost b mem_cons_self
      rw [(cons.inj heq).1] at hlt
      exact absurd hlt (Nat.lt_irrefl _)
  have hright' : ∀ b ∈ post, Before dp b := fun b hb =>
    ⟨Or.inl (hpost b hb), fun hf => by rw [hnil hf] at hb; cases hb⟩
  rw [← append_assoc]
  refine pairwise_append.mpr ⟨hleft, pairwise_cons.mpr ⟨hright', hright⟩, fun a ha => ?_⟩
  exact forall_mem_cons.mpr ⟨hleft' a ha, hacross a ha⟩

namespace QueueRun

variable {isExpressSnoop : Pkt → Bool} {s s' : QueueRun Pkt}

/-- The packets that are still to be sent: the one that is just being sent first. -/
def pending (s : QueueRun Pkt) : List (DeferredPacket (Numbered Pkt)) :=
  s.inFlight.toList ++ s.queue.transmitList

/-- The front packet is due at `t`. -/
def DueAt (s : QueueRun Pkt) (t : Nat) : Prop := ∃ a ∈ s.queue.transmitList.head?, a.tick ≤ t

/-- **The invariant of a queue in a run.** -/
structure Inv (s : QueueRun Pkt) : Prop where
  order : s.pending.Pairwise Before
  sentOrder : s.sent.Pairwise OrderKept
  sentBefore : ∀ a ∈ s.sent, ∀ b ∈ s.pending, OrderKept a b.pkt
  count : s.accepted.map (·.seq) = range s.count
  inTime : ∀ a ∈ s.pending, a.tick < maxTick
  once : s.accepted.Perm (s.sent ++ s.pending.map (·.pkt))
  event : ∀ e ∈ s.queue.sendEvent, s.queue.waitingOnRetry = false ∧ s.now ≤ e ∧ s.DueAt e
  waiting : s.queue.waitingOnRetry = true → s.inFlight = none ∧ s.DueAt s.now
  driven : s.inFlight = none → s.queue.transmitList ≠ [] →
    s.queue.waitingOnRetry = true ∨ s.queue.sendEvent.isSome = true
  flying : ∀ dp ∈ s.inFlight, dp.tick ≤ s.now

theorem inv_start : Inv (start : QueueRun Pkt) where
  order := List.Pairwise.nil
  sentOrder := List.Pairwise.nil
  sentBefore := nofun
  count := rfl
  inTime := nofun
  once := List.Perm.refl _
  event := nofun
  waiting := nofun
  driven := fun _ h => absurd rfl h
  flying := nofun

section

variable (h : Inv s)

include h

theorem Inv.byTick : ByTick s.queue.transmitList :=
  (pairwise_append.mp h.order).2.1.imp Before.tick_le

theorem Inv.seq_lt {a : Numbered Pkt} (ha : a ∈ s.sent ++ s.pending.map (·.pkt)) : a.seq < s.count := by
  have hmem : a.seq ∈ s.accepted.map (·.seq) := mem_map_of_mem (h.once.mem_iff.mpr ha)
  rw [h.count] at hmem
  exact mem_range.mp hmem

theorem inv_schedSendTiming {pkt : Pkt} {when_ : Nat} {force : Bool}
    (hlegal : Legal isExpressSnoop s (.schedSendTiming pkt when_ force))
    (hbenign : Benign s (.schedSendTiming pkt when_ force)) :
    ∃ s', step isExpressSnoop s (.schedSendTiming pkt when_ force) = some s' ∧ Inv s' := by
  obtain ⟨hnow, hexpress⟩ := hlegal
  obtain ⟨hmax, hlen⟩ := hbenign
  have hmem : ∀ a ∈ s.queue.transmitList, a ∈ s.pending := fun a ha => mem_append_right _ ha
  obtain ⟨q', t, hq', hle, hlt, hplaced, hforced, hwait, hevent⟩ :=
    schedSendTiming_spec (fun p => isExpressSnoop p.pkt) s.queue ⟨pkt, s.count, force⟩ force h.byTick
      hnow hexpress hmax (fun a ha => h.inTime a (hmem a ha)) hlen fun hw => (h.waiting hw).2
  have hstep : step isExpressSnoop s (.schedSendTiming pkt when_ force) =
      some { s with queue := q', count := s.count + 1, accepted := s.accepted ++ [⟨pkt, s.count, force⟩] } :=
    congrArg (Option.map _) hq'
  have hperm : (s.inFlight.toList ++ q'.transmitList).Perm (⟨t, ⟨pkt, s.count, force⟩⟩ :: s.pending) :=
    (hplaced.perm.append_left _).trans perm_middle
  have hseq : ∀ a ∈ s.pending, a.pkt.seq < s.count := fun a ha =>
    h.seq_lt (mem_append_right _ (mem_map_of_mem ha))
  refine ⟨_, hstep, ?_, h.sentOrder, fun a ha b hb => ?_, ?_, fun a ha => ?_, ?_, fun e he => ?_,
    fun hw => ?_, fun hin hne => ?_, h.flying⟩
  · refine hplaced.pairwise h.order hseq (fun a ha => ?_) hforced
    exact Nat.le_trans (h.flying a (mem_toList.mp ha)) (Nat.le_trans hnow hle)
  · rcases mem_cons.mp (hperm.mem_iff.mp hb) with rfl | hb
    · exact fun _ => h.seq_lt (mem_append_left _ ha)
    · exact h.sentBefore a ha b hb
  · rw [map_append, h.count, range_succ]
    rfl
  · rcases mem_cons.mp (hperm.mem_iff.mp ha) with rfl | ha
    · exact hlt
    · exact h.inTime a ha
  · refine ((h.once.append_right _).trans ?_).trans ((hperm.map _).symm.append_left s.sent)
    rw [append_assoc]
    exact List.Perm.append_left _ perm_append_comm
  · -- the event: an old one is still late enough for the new front
    rcases hevent with ⟨hsame, a, ha, hat, hhead⟩ | ⟨hw, hlater, hhead, hev⟩
    · obtain ⟨hw', hne', b, hb, hbt⟩ := h.event e (hsame ▸ he)
      exact ⟨hwait ▸ hw', hne', b, (by rw [hhead]; exact (mem_unique ha hb) ▸ rfl), hbt⟩
    · refine ⟨hwait ▸ hw, ?_⟩
      rw [hev] at he
      cases he
      have hearlier : s.now ≤ earlier s.queue.sendEvent (max t (s.now + 1)) ∧
          t ≤ earlier s.queue.sendEvent (max t (s.now + 1)) := by
        refine earlier_spec s.now fun e he => ?_
        obtain ⟨-, hnow', b, hb, hbt⟩ := h.event e he
        have htb := hlater b (mem_of_mem_head? hb)
        omega
      exact ⟨hearlier.1, _, hhead, hearlier.2⟩
  · rw [hwait] at hw
    obtain ⟨hin, b, hb, hbt⟩ := h.waiting hw
    refine ⟨hin, ?_⟩
    rcases hevent with ⟨-, a, ha, -, hhead⟩ | ⟨hw', -⟩
    · exact ⟨b, (by rw [hhead]; exact (mem_unique ha hb) ▸ rfl), hbt⟩
    · exact absurd (hw.symm.trans hw') (by decide)
  · rcases hevent with ⟨hsame, a, ha, -, -⟩ | ⟨-, -, -, hev⟩
    · have hne' : s.queue.transmitList ≠ [] := fun hnil => by rw [hnil] at ha; cases ha
      rw [hwait, hsame]
      exact h.driven hin hne'
    · exact Or.inr (by rw [hev]; rfl)

theorem inv_sendBegin (hin : s.inFlight = none) (hdue : s.DueAt s.now)
    {q : PacketQueue (Numbered Pkt)} (hlist : q.transmitList = s.queue.transmitList)
    (hevent : q.sendEvent = none) (hwait : q.waitingOnRetry = false) :
    ∃ s', (q.sendBegin s.now).map s.calling = some s' ∧ Inv s' := by
  obtain ⟨dp, hdp, hle⟩ := hdue
  obtain ⟨rest, hrest⟩ : ∃ rest, s.queue.transmitList = dp :: rest := by
    cases hq : s.queue.transmitList with
    | nil => rw [hq] at hdp; cases hdp
    | cons a rest => rw [hq] at hdp; cases hdp; exact ⟨rest, rfl⟩
  have hbegin : q.sendBegin s.now = some ({ q with transmitList := rest }, dp) := by
    unfold sendBegin
    rw [if_pos ⟨hwait, by rw [deferredPacketReady, hlist, hrest]; exact decide_eq_true hle⟩, hlist, hrest]
  -- the packets that are still to be sent are the same
  have hpending : (s.calling ({ q with transmitList := rest }, dp)).pending = s.pending := by
    unfold pending
    rw [hin, hrest]
    rfl
  refine ⟨s.calling ({ q with transmitList := rest }, dp), by rw [hbegin]; rfl, ?_, h.sentOrder, ?_,
    h.count, ?_, ?_, fun e he => ?_, fun hw => ?_, nofun, fun a ha => ?_⟩
  · rw [hpending]; exact h.order
  · rw [hpending]; exact h.sentBefore
  · rw [hpending]; exact h.inTime
  · rw [hpending]; exact h.once
  · exact absurd (hevent.symm.trans he) (by simp)
  · exact absurd (hwait.symm.trans hw) (by decide)
  · cases ha
    exact hle

theorem inv_answer_success {dp : DeferredPacket (Numbered Pkt)} (hin : s.inFlight = some dp) :
    ∃ s', step isExpressSnoop s (.answer true) = some s' ∧ Inv s' := by
  have hpending : s.pending = dp :: s.queue.transmitList := by
    unfold pending
    rw [hin]
    rfl
  have hwait : s.queue.waitingOnRetry = false := by
    by_contra hw
    exact absurd ((h.waiting (Bool.of_not_eq_false hw)).1.symm.trans hin) (by simp)
  obtain ⟨hsent, hrest⟩ := pairwise_cons.mp (hpending ▸ h.order)
  obtain ⟨q', hend, hlist, hwait', hevent⟩ := sendEnd_success s.now dp hwait
    fun a ha => h.inTime a (mem_append_right _ (mem_of_mem_head? ha))
  have hstep : step isExpressSnoop s (.answer true) =
      some { s with queue := q', inFlight := none, sent := s.sent ++ [dp.pkt] } := by
    simp only [step, hin, bind_some, hend, map_some, if_true]
  refine ⟨_, hstep, ?_, ?_, fun a ha b hb => ?_, h.count, fun a ha => ?_, ?_, fun e he => ?_, fun hw => ?_,
    fun _ hne => ?_, nofun⟩
  · show q'.transmitList.Pairwise Before
    rw [hlist]
    exact hrest
  · refine pairwise_append.mpr ⟨h.sentOrder, pairwise_singleton _ _, fun a ha b hb => ?_⟩
    rw [mem_singleton.mp hb]
    exact h.sentBefore a ha dp (hpending ▸ mem_cons_self)
  · have hb' : b ∈ s.queue.transmitList := hlist ▸ hb
    rcases mem_append.mp ha with ha | ha
    · exact h.sentBefore a ha b (mem_append_right _ hb')
    · rw [mem_singleton.mp ha]
      exact (hsent b hb').2
  · exact h.inTime a (mem_append_right _ (hlist ▸ ha))
  · have honce := h.once
    rw [hpending] at honce
    show s.accepted.Perm (s.sent ++ [dp.pkt] ++ q'.transmitList.map (·.pkt))
    rw [hlist, append_assoc]
    exact honce
  · refine ⟨hwait', ?_⟩
    dsimp only [DueAt] at he ⊢
    rw [hlist]
    rcases hevent with ⟨-, hsame⟩ | ⟨a, ha, hev⟩
    · exact (h.event e (hsame ▸ he)).2
    · rw [hev] at he
      cases he
      have hearlier := earlier_spec (e := s.queue.sendEvent) (t := a.tick) s.now fun e he => by
        obtain ⟨-, hnow, b, hb, hbt⟩ := h.event e he
        cases mem_unique ha hb
        exact ⟨hnow, hbt⟩
      exact ⟨hearlier.1, a, ha, hearlier.2⟩
  · exact absurd (hwait'.symm.trans hw) (by decide)
  · rcases hevent with ⟨hnil, -⟩ | ⟨a, -, hev⟩
    · exact absurd (hlist.trans hnil) hne
    · exact Or.inr (by rw [hev]; rfl)

theorem inv_answer_refused {dp : DeferredPacket (Numbered Pkt)}
    (hin : s.inFlight = some dp) (hevent : s.queue.sendEvent = none) :
    ∃ s', step isExpressSnoop s (.answer false) = some s' ∧ Inv s' := by
  have hpending : s.pending = dp :: s.queue.transmitList := by
    unfold pending
    rw [hin]
    rfl
  have hstep : step isExpressSnoop s (.answer false) = some { s with
      queue := { s.queue with waitingOnRetry := true, transmitList := dp :: s.queue.transmitList },
      inFlight := none } := by
    simp only [step, hin, bind_some]
    rfl
  have hdue : dp.tick ≤ s.now := h.flying dp hin
  refine ⟨_, hstep, hpending ▸ h.order, h.sentOrder, hpending ▸ h.sentBefore, h.count,
    hpending ▸ h.inTime, hpending ▸ h.once, fun e he => ?_, fun _ => ⟨rfl, dp, rfl, hdue⟩,
    fun _ _ => Or.inl rfl, nofun⟩
  exact absurd (hevent.symm.trans he) (by simp)

/-- **Every step that can happen and is benign goes through and keeps the invariant.** -/
theorem inv_step {c : QueueCall Pkt} (hlegal : Legal isExpressSnoop s c)
    (hbenign : Benign s c) : ∃ s', step isExpressSnoop s c = some s' ∧ Inv s' := by
  cases c with
  | schedSendTiming pkt when_ force => exact inv_schedSendTiming h hlegal hbenign
  | sendEvent =>
    obtain ⟨hfires, hin⟩ := hlegal
    obtain ⟨hwait, -, hdue⟩ := h.event _ hfires
    have hsend := inv_sendBegin h (isNone_iff_eq_none.mp hin) hdue
      (q := { s.queue with sendEvent := none }) rfl rfl hwait
    have hproc : { s.queue with sendEvent := none }.processSendEvent s.now =
        { s.queue with sendEvent := none }.sendBegin s.now := by
      rw [processSendEvent, if_neg (by simp [hwait])]
    simp only [step, hproc]
    exact hsend
  | retry =>
    obtain ⟨hwait, hin⟩ := hlegal
    have hnone : s.queue.sendEvent = none := by
      cases he : s.queue.sendEvent with
      | none => rfl
      | some e => exact absurd (hwait.symm.trans (h.event e he).1) (by decide)
    have hsend := inv_sendBegin h (isNone_iff_eq_none.mp hin) (h.waiting hwait).2
      (q := { s.queue with waitingOnRetry := false }) rfl hnone rfl
    simp only [step, retry, hwait, if_true]
    exact hsend
  | answer success =>
    obtain ⟨dp, hin⟩ := isSome_iff_exists.mp hlegal
    cases success with
    | true => exact inv_answer_success h hin
    | false => exact inv_answer_refused h hin (hbenign rfl)
  | drain =>
    refine ⟨_, rfl, ?_⟩
    unfold drain
    split
    · exact h
    · exact { h with }
  | tick t =>
    obtain ⟨hle, hin, hevent⟩ := hlegal
    refine ⟨_, rfl, { h with event := fun e he => ?_, waiting := fun hw => ?_, flying := fun dp hdp => ?_ }⟩
    · exact ⟨(h.event e he).1, hevent e he, (h.event e he).2.2⟩
    · obtain ⟨hnone, a, ha, hat⟩ := h.waiting hw
      exact ⟨hnone, a, ha, Nat.le_trans hat hle⟩
    · exact Nat.le_trans (h.flying dp hdp) hle

end

/-! ## The queue delivers every packet once and in order -/

/-- **In every run in which no refused send left an event behind**, the list is sorted by tick with first
    come first among equals, no forced packet is sent or queued in front of one that came earlier, every
    accepted packet is sent or pending exactly once, a queue with packets waits for exactly one of its
    event and a retry, and no assertion fails. -/
theorem queue_delivers_in_order {as : List (QueueCall Pkt)} (hrun : Run (Guarded (stepOf (step isExpressSnoop))
      fun s c => Legal isExpressSnoop s c ∧ Benign s c) start as s) : s.queue.transmitList.Pairwise (fun a b =>
      a.tick < b.tick ∨ (a.tick = b.tick ∧ a.pkt.seq < b.pkt.seq)) ∧
    (s.sent ++ s.pending.map (·.pkt)).Pairwise (fun a b => a.forced = true → a.seq < b.seq) ∧
    s.accepted.map (·.seq) = range s.count ∧
    s.accepted.Perm (s.sent ++ s.pending.map (·.pkt)) ∧
    (s.inFlight = none → s.queue.transmitList ≠ [] → (s.queue.waitingOnRetry = true ↔ s.queue.sendEvent = none)) ∧
    ∀ c, Legal isExpressSnoop s c → Benign s c → (step isExpressSnoop s c).isSome = true := by
  have hinv : Inv s := by
    refine hrun.inv (P := Inv) (fun s c s' h hs => ?_) inv_start
    obtain ⟨hstep, hlegal, hbenign⟩ := hs
    obtain ⟨s₁, hs₁, hinv⟩ := inv_step h hlegal hbenign
    have heq : s₁ = s' := Option.some.inj (hs₁.symm.trans hstep)
    exact heq ▸ hinv
  refine ⟨(pairwise_append.mp hinv.order).2.1.imp And.left, ?_, hinv.count, hinv.once,
    fun hin hne => ⟨fun hw => ?_, fun he => ?_⟩, fun c hlegal hbenign => ?_⟩
  · refine pairwise_append.mpr ⟨hinv.sentOrder, ?_, fun a ha b hb => ?_⟩
    · exact pairwise_map.mpr (hinv.order.imp And.right)
    · obtain ⟨dp, hdp, rfl⟩ := mem_map.mp hb
      exact hinv.sentBefore a ha dp hdp
  · cases he : s.queue.sendEvent with
    | none => rfl
    | some e => exact absurd (hw.symm.trans (hinv.event e he).1) (by decide)
  · rcases hinv.driven hin hne with hw | hsome
    · exact hw
    · rw [he] at hsome
      cases hsome
  · obtain ⟨s₁, hs₁, -⟩ := inv_step hinv hlegal hbenign
    rw [hs₁]
    rfl

/-- A run in which the peer schedules a packet behind another one and refuses, and takes both later: the
    two are sent in order. -/
theorem queue_delivers_in_order_refused : ∃ s : QueueRun Nat, s.sent.map (·.pkt) = [7, 8, 9] ∧
      (s.sent ++ s.pending.map (·.pkt)).Pairwise (fun a b => a.forced = true → a.seq < b.seq) := by
  have hrun : (exec (guardFn (step fun _ => false) fun s c => Legal (fun _ => false) s c ∧ Benign s c) start
      [.schedSendTiming 7 5 false, .schedSendTiming 8 6 false, .tick 5, .sendEvent,
        .schedSendTiming 9 5 true, .answer false, .retry, .answer true, .tick 6, .sendEvent, .answer true,
        .tick 7, .sendEvent, .answer true]).map (fun s => s.sent.map (·.pkt)) = some [7, 8, 9] := by
    decide +kernel
  obtain ⟨s, hs, hobs⟩ := map_eq_some_iff.mp hrun
  exact ⟨s, hobs, (queue_delivers_in_order (exec_guardFn_iff.mp hs)).2.1⟩

/-- **A refused send that leaves an event behind.**  While packet 7 is being sent the peer schedules packet
    8, which finds the list empty; the peer then refuses 7.  Every call was legal, yet the queue waits
    for a retry AND has its event scheduled, and when that fires the assertion of `processSendEvent`
    fails. -/
theorem refused_with_event :
    ∃ s : QueueRun Nat, Run (Guarded (stepOf (step fun _ => false)) (Legal fun _ => false)) start
        [.schedSendTiming 7 5 false, .tick 5, .sendEvent, .schedSendTiming 8 9 false, .answer false, .tick 9] s ∧
      s.inFlight = none ∧ s.queue.transmitList ≠ [] ∧ ¬ (s.queue.waitingOnRetry = true ↔ s.queue.sendEvent = none) ∧
      Legal (fun _ => false) s .sendEvent ∧ step (fun _ => false) s .sendEvent = none := by
  refine run_observe (fun s : QueueRun Nat =>
          (s.inFlight.isNone, s.queue.transmitList.isEmpty, s.queue.waitingOnRetry, s.queue.sendEvent,
            s.now, (step (fun _ => false) s .sendEvent).isNone))
    (true, false, true, some 9, 9, true) (by decide +kernel) fun s hs hobs => ?_
  simp only [Prod.mk.injEq] at hobs
  obtain ⟨hin, hne, hwait, hevent, hnow, hnone⟩ := hobs
  refine ⟨isNone_iff_eq_none.mp hin, fun hnil => ?_, fun hiff => ?_,
    ⟨by rw [hevent, hnow], hin⟩, isNone_iff_eq_none.mp hnone⟩
  · rw [hnil] at hne
    cases hne
  · exact absurd (hevent.symm.trans (hiff.mp hwait)) (by simp)

end QueueRun

end NvpSim.Mem
