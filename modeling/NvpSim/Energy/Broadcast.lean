/-
  The message queue of the energy manager (`EnergyMgmt::broadcastMsg`, `EnergyMgmt::broadcastMsgAsEvent`,
  `MasterEnergyPort::broadcastMsg`).

  `broadcastMsg` hands `msg_togo[0]` to one slave after the other and takes it off the queue only when the last
  of them has RETURNED; a slave may itself send messages meanwhile.  The call is therefore cut into `fire`, one
  `handle` per slave, and `finish`, and a `push` may come at any point.
-/
import NvpSim.Energy.Mgmt
import NvpSim.Lib.Run

namespace NvpSim.Energy

open NvpSim.Sim NvpSim.Lib List Option

variable {M : Type}

namespace EnergyMgmt

/-- The end of `broadcastMsg`: drop the message that was handed out, and run again in this tick while
    messages are left. -/
def finishBroadcast (curTick : Tick) (m : EnergyMgmt M) : Option (EnergyMgmt M) :=
  match m.msgTogo with
  | [] => none
  | _ :: rest =>
    let m' := { m with msgTogo := rest }
    if rest ≠ [] then (m'.eventMsg.schedule curTick curTick).map fun e => { m' with eventMsg := e }
    else some m'

variable {cur : Tick} {m m' : EnergyMgmt M} {msg : EnergyMsg}

theorem broadcastMsgAsEvent_of_ne_nil (msg : EnergyMsg) (h : m.msgTogo ≠ []) :
    m.broadcastMsgAsEvent cur msg = some { m with msgTogo := m.msgTogo ++ [msg] } := by
  have hlen : 0 < m.msgTogo.length := length_pos_iff.mpr h
  unfold broadcastMsgAsEvent
  rw [if_neg]
  rw [length_append, length_singleton]
  omega

theorem broadcastMsgAsEvent_of_nil (msg : EnergyMsg) (h : m.msgTogo = []) (hfree : m.eventMsg.scheduled = false) :
    m.broadcastMsgAsEvent cur msg = some { m with msgTogo := [msg], eventMsg := ⟨cur, true⟩ } := by
  have hsched : m.eventMsg.schedule cur cur = some ⟨cur, true⟩ :=
    Event.schedule_eq_some.mpr ⟨Nat.le_refl cur, hfree, rfl⟩
  unfold broadcastMsgAsEvent
  rw [h, nil_append, if_pos length_singleton, hsched]
  rfl

theorem consumeEnergy_msgTogo [BaseEnergySM M] {p : EnergyMgmtParams} {val : Rat}
    (h : m.consumeEnergy p cur val = some m') :
    m'.msgTogo = m.msgTogo ++ (BaseEnergySM.update m.stateMachine (m.energyAfter p val)).2 := by
  obtain ⟨e, -, rfl⟩ := broadcastMsgs_eq_some h
  rfl

theorem finishBroadcast_msgTogo (h : m.finishBroadcast cur = some m') : m'.msgTogo = m.msgTogo.tail := by
  unfold finishBroadcast at h
  split at h
  · cases h
  · rename_i hq
    rw [hq]
    split at h
    · obtain ⟨e, -, rfl⟩ := map_eq_some_iff.mp h
      rfl
    · cases h
      rfl

theorem finishBroadcast_of_last (h : m.msgTogo = [msg]) : m.finishBroadcast cur = some { m with msgTogo := [] } := by
  unfold finishBroadcast
  rw [h]
  rfl

theorem finishBroadcast_of_more {rest : List EnergyMsg} (h : m.msgTogo = msg :: rest)
    (hne : rest ≠ []) (hfree : m.eventMsg.scheduled = false) :
    m.finishBroadcast cur = some { m with msgTogo := rest, eventMsg := ⟨cur, true⟩ } := by
  have hsched : m.eventMsg.schedule cur cur = some ⟨cur, true⟩ :=
    Event.schedule_eq_some.mpr ⟨Nat.le_refl cur, hfree, rfl⟩
  unfold finishBroadcast
  rw [h]
  dsimp only
  rw [if_pos hne, hsched]
  rfl

end EnergyMgmt

/-! ## The manager and its slaves -/

/-- The energy manager with the slaves bound to its port.  `call` is the open call of `broadcastMsg`: its
    copy of the message, and the index of the slave that is next.  `pushed` and `delivered` record what
    was handed to `broadcastMsgAsEvent` and to each slave. -/
structure MsgSys (M : Type) where
  curTick : Tick
  mgmt : EnergyMgmt M
  slaves : Nat
  call : Option (EnergyMsg × Nat)
  pushed : List EnergyMsg
  delivered : Nat → List EnergyMsg

/-- What happens to the queue. -/
inductive MsgAct where
  | push (msg : EnergyMsg)
  | fire
  | handle
  | finish
  | pass (tick : Tick)
  deriving DecidableEq

namespace MsgSys

/-- A manager whose queue has not been used. -/
def start (p : EnergyMgmtParams) (sm : M) (curTick : Tick) (slaves : Nat) : MsgSys M where
  curTick := curTick
  mgmt := .new p sm
  slaves := slaves
  call := none
  pushed := []
  delivered := fun _ => []

/-- One part of a call.  The queue clears the flag of an event before it calls the handler. -/
def step (s : MsgSys M) : MsgAct → Option (MsgSys M)
  | .push msg =>
    (s.mgmt.broadcastMsgAsEvent s.curTick msg).map fun m =>
      { s with mgmt := m, pushed := s.pushed ++ [msg] }
  | .fire =>
    s.mgmt.msgTogo.head?.map fun msg =>
      { s with
        mgmt := { s.mgmt with eventMsg := s.mgmt.eventMsg.fired }
        call := some (msg, 0) }
  | .handle =>
    s.call.map fun c =>
      { s with
        call := some (c.1, c.2 + 1)
        delivered := fun i => if i = c.2 then s.delivered i ++ [c.1] else s.delivered i }
  | .finish =>
    (s.mgmt.finishBroadcast s.curTick).map fun m => { s with mgmt := m, call := none }
  | .pass tick => some { s with curTick := tick }

/-- An event fires when it is due, outside any call; a call hands its message to every slave and then
    ends; time passes outside a call, and not past the event.  A push is always legal. -/
def Legal (s : MsgSys M) : MsgAct → Prop
  | .push _ => True
  | .fire => s.call = none ∧ s.mgmt.eventMsg.due = some s.curTick
  | .handle => ∃ c ∈ s.call, c.2 < s.slaves
  | .finish => ∃ c ∈ s.call, c.2 = s.slaves
  | .pass tick => s.call = none ∧ s.curTick ≤ tick ∧ ∀ w ∈ s.mgmt.eventMsg.due, tick ≤ w

instance (s : MsgSys M) (a : MsgAct) : Decidable (s.Legal a) :=
  match a with
  | .push _ => isTrue trivial
  | .fire => inferInstanceAs (Decidable (_ ∧ _))
  | .handle => inferInstanceAs (Decidable (∃ c ∈ s.call, c.2 < s.slaves))
  | .finish => inferInstanceAs (Decidable (∃ c ∈ s.call, c.2 = s.slaves))
  | .pass tick =>
    inferInstanceAs (Decidable (_ ∧ _ ∧ ∀ w ∈ s.mgmt.eventMsg.due, tick ≤ w))

/-- The steps of the queue. -/
def Step : MsgSys M → MsgAct → MsgSys M → Prop := Guarded (stepOf step) Legal

/-! ## The invariant -/

/-- What slave `i` has not got yet: an open call that is past it has handed it the first message. -/
def owed (s : MsgSys M) (i : Nat) : List EnergyMsg :=
  match s.call with
  | none => s.mgmt.msgTogo
  | some c => if i < c.2 then s.mgmt.msgTogo.tail else s.mgmt.msgTogo

/-- The event is scheduled, in this tick, exactly outside a call with messages to go; an open call is
    about the first message; and what a slave got and what it is owed is what was pushed. -/
structure Safe (s : MsgSys M) : Prop where
  idle : s.call = none → s.mgmt.eventMsg.due = if s.mgmt.msgTogo = [] then none else some s.curTick
  busy : ∀ c, s.call = some c → s.mgmt.eventMsg.due = none ∧ s.mgmt.msgTogo.head? = some c.1 ∧ c.2 ≤ s.slaves
  order : ∀ i < s.slaves, s.delivered i ++ s.owed i = s.pushed

theorem safe_start (p : EnergyMgmtParams) (sm : M) (curTick : Tick) (slaves : Nat) :
    (start p sm curTick slaves).Safe where
  idle := fun _ => rfl
  busy := nofun
  order := fun _ _ => rfl

section Step

variable {s s' : MsgSys M}

section

variable (h : s.Safe)

include h

theorem Safe.msgTogo_of_call {c : EnergyMsg × Nat} (hc : s.call = some c) :
    ∃ rest, s.mgmt.msgTogo = c.1 :: rest := by
  obtain ⟨-, hhead, -⟩ := h.busy c hc
  cases hq : s.mgmt.msgTogo with
  | nil => rw [hq] at hhead; cases hhead
  | cons msg rest =>
    rw [hq] at hhead
    exact ⟨rest, by rw [Option.some.inj hhead]⟩

theorem Safe.owed_push (msg : EnergyMsg) (e : Event) (i : Nat) : owed { s with
      mgmt := { s.mgmt with msgTogo := s.mgmt.msgTogo ++ [msg], eventMsg := e }
      pushed := s.pushed ++ [msg] } i = s.owed i ++ [msg] := by
  unfold owed
  cases hc : s.call with
  | none => rfl
  | some c =>
    obtain ⟨rest, hq⟩ := h.msgTogo_of_call hc
    dsimp only
    by_cases hi : i < c.2
    · rw [if_pos hi, if_pos hi, hq]
      rfl
    · rw [if_neg hi, if_neg hi]

/-- **A push goes through at any time.** -/
theorem Safe.push (msg : EnergyMsg) : ∃ s', s.step (.push msg) = some s' ∧ s'.Safe := by
  by_cases hq : s.mgmt.msgTogo = []
  · -- an empty queue: no call is open, so the event is free
    have hcall : s.call = none := by
      cases hc : s.call with
      | none => rfl
      | some c =>
        obtain ⟨rest, hq'⟩ := h.msgTogo_of_call hc
        rw [hq] at hq'
        cases hq'
    have hdue := h.idle hcall
    rw [if_pos hq] at hdue
    have hpush : s.mgmt.broadcastMsgAsEvent s.curTick msg = some _ :=
      EnergyMgmt.broadcastMsgAsEvent_of_nil msg hq (Event.due_eq_none.mp hdue)
    refine ⟨_, congrArg (Option.map _) hpush, ?_, ?_, ?_⟩
    · intro _
      rfl
    · intro c hc
      exact absurd (hcall.symm.trans hc) (by simp)
    · intro i hi
      have howed := h.owed_push msg ⟨s.curTick, true⟩ i
      rw [hq] at howed
      calc s.delivered i ++ owed _ i = s.delivered i ++ (s.owed i ++ [msg]) := congrArg _ howed
        _ = s.pushed ++ [msg] := by rw [← append_assoc, h.order i hi]
  · -- messages are waiting: the event is left alone
    have hpush : s.mgmt.broadcastMsgAsEvent s.curTick msg = some _ :=
      EnergyMgmt.broadcastMsgAsEvent_of_ne_nil msg hq
    refine ⟨_, congrArg (Option.map _) hpush, ?_, ?_, ?_⟩
    · intro hcall
      have hdue := h.idle hcall
      rw [if_neg hq] at hdue
      show s.mgmt.eventMsg.due = if s.mgmt.msgTogo ++ [msg] = [] then none else some s.curTick
      rw [hdue, if_neg (by simp)]
    · intro c hc
      obtain ⟨hdue, -, hle⟩ := h.busy c hc
      obtain ⟨rest, hrest⟩ := h.msgTogo_of_call hc
      refine ⟨hdue, ?_, hle⟩
      show (s.mgmt.msgTogo ++ [msg]).head? = some c.1
      rw [hrest]
      rfl
    · intro i hi
      have howed := h.owed_push msg s.mgmt.eventMsg i
      calc s.delivered i ++ owed _ i = s.delivered i ++ (s.owed i ++ [msg]) := congrArg _ howed
        _ = s.pushed ++ [msg] := by rw [← append_assoc, h.order i hi]

/-- **The event fires on a message.** -/
theorem Safe.fire (hleg : s.Legal .fire) : ∃ s', s.step .fire = some s' ∧ s'.Safe := by
  obtain ⟨hcall, hdue⟩ := hleg
  have hidle := h.idle hcall
  cases hq : s.mgmt.msgTogo with
  | nil =>
    rw [if_pos hq, hdue] at hidle
    cases hidle
  | cons msg rest =>
    have hhead : s.mgmt.msgTogo.head? = some msg := by rw [hq]; rfl
    refine ⟨_, congrArg (Option.map _) hhead, ?_, ?_, ?_⟩
    · intro hc
      cases hc
    · intro c hc
      cases hc
      exact ⟨rfl, hhead, Nat.zero_le _⟩
    · intro i hi
      have howed : s.owed i = s.mgmt.msgTogo := by unfold owed; rw [hcall]
      rw [← h.order i hi, howed]
      rfl

/-- **A slave gets the first message that it is owed.** -/
theorem Safe.handle (hleg : s.Legal .handle) : ∃ s', s.step .handle = some s' ∧ s'.Safe := by
  obtain ⟨c, hc, hlt⟩ := hleg
  obtain ⟨hdue, hhead, hle⟩ := h.busy c hc
  obtain ⟨rest, hq⟩ := h.msgTogo_of_call hc
  refine ⟨_, by rw [step, hc]; rfl, ?_, ?_, ?_⟩
  · intro hnone
    cases hnone
  · intro c' hc'
    cases hc'
    exact ⟨hdue, hhead, hlt⟩
  · intro i hi
    have horder := h.order i hi
    unfold owed at horder ⊢
    rw [hc] at horder
    dsimp only at horder ⊢
    rcases Nat.lt_trichotomy i c.2 with hlt' | heq | hgt
    · -- this slave was served before
      rw [if_pos hlt'] at horder
      rw [if_neg (by omega), if_pos (by omega)]
      exact horder
    · rw [if_neg (by omega), hq] at horder
      rw [if_pos heq, if_pos (by omega), hq, append_assoc]
      exact horder
    · rw [if_neg (by omega)] at horder
      rw [if_neg (by omega), if_neg (by omega)]
      exact horder

/-- **A call ends, and the event is free to be scheduled again.** -/
theorem Safe.finish (hleg : s.Legal .finish) : ∃ s', s.step .finish = some s' ∧ s'.Safe := by
  obtain ⟨c, hc, heq⟩ := hleg
  obtain ⟨hdue, -, -⟩ := h.busy c hc
  obtain ⟨rest, hq⟩ := h.msgTogo_of_call hc
  -- every slave has been served, so each is owed what is left of the queue
  have horder : ∀ i < s.slaves, s.delivered i ++ rest = s.pushed := by
    intro i hi
    have := h.order i hi
    unfold owed at this
    rw [hc] at this
    dsimp only at this
    rw [if_pos (by omega), hq] at this
    exact this
  by_cases hne : rest = []
  · subst hne
    refine ⟨_, congrArg (Option.map _) (EnergyMgmt.finishBroadcast_of_last hq), ?_, ?_, horder⟩
    · intro _
      exact hdue
    · intro c' hc'
      cases hc'
  · have hfree := Event.due_eq_none.mp hdue
    refine ⟨_, congrArg (Option.map _) (EnergyMgmt.finishBroadcast_of_more hq hne hfree), ?_, ?_, horder⟩
    · intro _
      show some s.curTick = if rest = [] then none else some s.curTick
      rw [if_neg hne]
    · intro c' hc'
      cases hc'

theorem Safe.pass {tick : Tick} (hleg : s.Legal (.pass tick)) :
    ∃ s', s.step (.pass tick) = some s' ∧ s'.Safe := by
  obtain ⟨hcall, hle, hdue⟩ := hleg
  have hidle := h.idle hcall
  refine ⟨_, rfl, ?_, ?_, h.order⟩
  · intro _
    show s.mgmt.eventMsg.due = if s.mgmt.msgTogo = [] then none else some tick
    by_cases hq : s.mgmt.msgTogo = []
    · rw [if_pos hq] at hidle ⊢
      exact hidle
    · rw [if_neg hq] at hidle ⊢
      have := hdue s.curTick hidle
      rw [hidle, Nat.le_antisymm this hle]
  · intro c hc
    exact absurd (hcall.symm.trans hc) (by simp)

/-- **Every legal action goes through**, and keeps the queue safe. -/
theorem Safe.step {a : MsgAct} (hleg : s.Legal a) : ∃ s', s.step a = some s' ∧ s'.Safe := by
  cases a with
  | push msg => exact h.push msg
  | fire => exact h.fire hleg
  | handle => exact h.handle hleg
  | finish => exact h.finish hleg
  | pass tick => exact h.pass hleg

end

end Step

/-! ## Whole runs -/

variable {p : EnergyMgmtParams} {sm : M} {t n : Nat} {as : List MsgAct} {s s' : MsgSys M}

theorem Safe.of_step {a : MsgAct} (h : s.Safe) (hs : Step s a s') : s'.Safe := by
  obtain ⟨s'', hs'', hsafe⟩ := h.step hs.2
  cases hs''.symm.trans hs.1
  exact hsafe

theorem safe_of_run (h : Run Step (start p sm t n) as s) : s.Safe := by
  refine h.inv ?_ (safe_start p sm t n)
  intro s a s' hsafe hs
  exact hsafe.of_step hs

theorem slaves_of_step {a : MsgAct} (h : s.step a = some s') : s'.slaves = s.slaves := by
  cases a with
  | pass tick => cases h; rfl
  | push msg | fire | handle | finish =>
    obtain ⟨x, -, rfl⟩ := map_eq_some_iff.mp h
    rfl

theorem slaves_of_run (h : Run Step s as s') : s'.slaves = s.slaves := by
  refine h.inv (P := fun s' => s'.slaves = s.slaves) ?_ rfl
  intro s₁ a s₂ h₁ hs
  exact (slaves_of_step hs.1).trans h₁

theorem Safe.close (k : Nat) : ∀ {s : MsgSys M} {c : EnergyMsg × Nat}, s.Safe → s.call = some c →
    c.2 + k = s.slaves → ∃ bs s', Run Step s bs s' ∧ (∀ msg, .push msg ∉ bs) ∧ s'.Safe ∧
      s'.call = none ∧ s'.mgmt.msgTogo = s.mgmt.msgTogo.tail ∧ s'.pushed = s.pushed := by
  induction k with
  | zero =>
    intro s c h hc hk
    have hleg : s.Legal .finish := ⟨c, hc, hk⟩
    obtain ⟨s', hs', hsafe⟩ := h.finish hleg
    refine ⟨[.finish], s', Run.nil.snoc ⟨hs', hleg⟩, by simp, hsafe, ?_⟩
    obtain ⟨m, hm, rfl⟩ := map_eq_some_iff.mp hs'
    exact ⟨rfl, EnergyMgmt.finishBroadcast_msgTogo hm, rfl⟩
  | succ k ih =>
    intro s c h hc hk
    have hleg : s.Legal .handle := ⟨c, hc, by omega⟩
    obtain ⟨s₁, hs₁, hsafe⟩ := h.handle hleg
    have hs₁' := hs₁
    rw [MsgSys.step, hc] at hs₁'
    cases hs₁'
    obtain ⟨bs, s', hrun, hpush, hrest⟩ := ih hsafe rfl (by show c.2 + 1 + k = s.slaves; omega)
    refine ⟨.handle :: bs, s', Run.cons ⟨hs₁, hleg⟩ hrun, ?_, hrest⟩
    exact fun msg => not_mem_cons_of_ne_of_not_mem nofun (hpush msg)

theorem Safe.deliver_one (h : s.Safe) (hcall : s.call = none) (hq : s.mgmt.msgTogo ≠ []) :
    ∃ bs s', Run Step s bs s' ∧ (∀ msg, .push msg ∉ bs) ∧ s'.Safe ∧
      s'.call = none ∧ s'.mgmt.msgTogo = s.mgmt.msgTogo.tail ∧ s'.pushed = s.pushed := by
  have hidle := h.idle hcall
  rw [if_neg hq] at hidle
  have hleg : s.Legal .fire := ⟨hcall, hidle⟩
  obtain ⟨s₁, hs₁, hsafe⟩ := h.fire hleg
  obtain ⟨msg, -, rfl⟩ := map_eq_some_iff.mp hs₁
  obtain ⟨bs, s', hrun, hpush, hrest⟩ := hsafe.close s.slaves rfl (Nat.zero_add _)
  refine ⟨.fire :: bs, s', Run.cons ⟨hs₁, hleg⟩ hrun, ?_, hrest⟩
  exact fun msg' => not_mem_cons_of_ne_of_not_mem nofun (hpush msg')

theorem Safe.drain (k : Nat) : ∀ {s : MsgSys M}, s.Safe → s.call = none → s.mgmt.msgTogo.length = k →
    ∃ bs s', Run Step s bs s' ∧ (∀ msg, .push msg ∉ bs) ∧ s'.Safe ∧
      s'.call = none ∧ s'.mgmt.msgTogo = [] ∧ s'.pushed = s.pushed := by
  induction k with
  | zero =>
    intro s h hcall hlen
    exact ⟨[], s, .nil, by simp, h, hcall, length_eq_zero_iff.mp hlen, rfl⟩
  | succ k ih =>
    intro s h hcall hlen
    have hq : s.mgmt.msgTogo ≠ [] := by
      intro hq
      rw [hq] at hlen
      cases hlen
    obtain ⟨bs, s₁, hrun, hpush, hsafe, hcall₁, hq₁, hpushed⟩ := h.deliver_one hcall hq
    obtain ⟨bs', s', hrun', hpush', hsafe', hcall', hq', hpushed'⟩ :=
      ih hsafe hcall₁ (by rw [hq₁, length_tail]; omega)
    refine ⟨bs ++ bs', s', hrun.append hrun', ?_, hsafe', hcall', hq', hpushed'.trans hpushed⟩
    intro msg
    exact not_mem_append (hpush msg) (hpush' msg)

theorem Safe.completes (h : s.Safe) : ∃ bs s', Run Step s bs s' ∧ (∀ msg, .push msg ∉ bs) ∧ s'.Safe ∧
      s'.call = none ∧ s'.mgmt.msgTogo = [] ∧ s'.pushed = s.pushed := by
  cases hc : s.call with
  | none => exact h.drain _ hc rfl
  | some c =>
    obtain ⟨-, -, hle⟩ := h.busy c hc
    obtain ⟨bs, s₁, hrun, hpush, hsafe, hcall₁, -, hpushed⟩ :=
      h.close (s.slaves - c.2) hc (by omega)
    obtain ⟨bs', s', hrun', hpush', hsafe', hcall', hq', hpushed'⟩ := hsafe.drain _ hcall₁ rfl
    refine ⟨bs ++ bs', s', hrun.append hrun', ?_, hsafe', hcall', hq', hpushed'.trans hpushed⟩
    intro msg
    exact not_mem_append (hpush msg) (hpush' msg)

/-- What each slave has been handed, counted in messages: one per call that ended, and one more if an
    open call is past it. -/
def handed (as : List MsgAct) (s : MsgSys M) (i : Nat) : Nat :=
  as.count .finish + match s.call with
    | none => 0
    | some c => if i < c.2 then 1 else 0

theorem length_delivered (h : Run Step (start p sm t n) as s) : ∀ i < n, (s.delivered i).length = handed as s i := by
  refine (h.inv_hist (P := fun as s => s.Safe ∧ s.slaves = n ∧
    ∀ i < n, (s.delivered i).length = handed as s i) ?_ ⟨safe_start p sm t n, rfl, ?_⟩).2.2
  · rintro as s a s' ⟨hsafe, hslaves, hlen⟩ hs
    refine ⟨hsafe.of_step hs, (slaves_of_step hs.1).trans hslaves, ?_⟩
    intro i hi
    have hold := hlen i hi
    obtain ⟨hstep, hleg⟩ := hs
    unfold handed at hold ⊢
    rw [count_append]
    cases a with
    | pass tick =>
      cases hstep
      exact hold
    | push msg =>
      obtain ⟨m, -, rfl⟩ := map_eq_some_iff.mp hstep
      exact hold
    | fire =>
      obtain ⟨msg, -, rfl⟩ := map_eq_some_iff.mp hstep
      rw [hleg.1] at hold
      exact hold
    | handle =>
      obtain ⟨c, hc, hlt⟩ := hleg
      obtain ⟨c', hc', rfl⟩ := map_eq_some_iff.mp hstep
      cases hc.symm.trans hc'
      rw [hc] at hold
      dsimp only at hold ⊢
      have hcount : [MsgAct.handle].count .finish = 0 := rfl
      rw [hcount]
      rcases Nat.lt_trichotomy i c.2 with hlt' | heq | hgt
      · rw [if_pos hlt'] at hold
        rw [if_neg (by omega), if_pos (by omega)]
        exact hold
      · rw [if_neg (by omega)] at hold
        rw [if_pos heq, if_pos (by omega), length_append, hold]
        rfl
      · rw [if_neg (by omega)] at hold
        rw [if_neg (by omega), if_neg (by omega)]
        exact hold
    | finish =>
      obtain ⟨c, hc, hlast⟩ := hleg
      obtain ⟨m, -, rfl⟩ := map_eq_some_iff.mp hstep
      rw [hc] at hold
      dsimp only at hold ⊢
      rw [if_pos (by omega)] at hold
      rw [hold, count_singleton_self]
  · intro i _
    rfl

/-- **Exactly once and in order.**  In every state of every run: outside a call the event is scheduled
    exactly if messages are to go; no legal action fails, so `schedule` never meets a scheduled event;
    every slave has been handed the messages in the order in which they were pushed, one per call; while
    messages are to go time does not pass; and from every state all of them can still be delivered. -/
theorem messages_delivered_once_in_order (h : Run Step (start p sm t n) as s) :
    (s.call = none → (s.mgmt.eventMsg.scheduled = true ↔ s.mgmt.msgTogo ≠ [])) ∧
      (∀ a, s.Legal a → ∃ s', s.step a = some s') ∧ (∀ i < n, s.delivered i = s.pushed.take (handed as s i)) ∧
      (s.mgmt.msgTogo ≠ [] → ∀ tick, s.Legal (.pass tick) → tick = s.curTick) ∧
      ∃ bs s', Run Step s bs s' ∧ (∀ msg, .push msg ∉ bs) ∧ s'.pushed = s.pushed ∧
        ∀ i < n, s'.delivered i = s.pushed := by
  have hsafe := safe_of_run h
  have hslaves : s.slaves = n := slaves_of_run h
  have hcount := length_delivered h
  refine ⟨?_, ?_, ?_, ?_, ?_⟩
  · intro hcall
    have hidle := hsafe.idle hcall
    constructor
    · intro hsched hq
      rw [if_pos hq] at hidle
      rw [Event.due_eq_none.mp hidle] at hsched
      cases hsched
    · intro hq
      rw [if_neg hq] at hidle
      exact (Event.due_eq_some.mp hidle).1
  · intro a hleg
    obtain ⟨s', hs', -⟩ := hsafe.step hleg
    exact ⟨s', hs'⟩
  · intro i hi
    rw [← hcount i hi, ← hsafe.order i (by omega), take_left]
  · intro hq tick hleg
    have hidle := hsafe.idle hleg.1
    rw [if_neg hq] at hidle
    have := hleg.2.2 s.curTick hidle
    exact Nat.le_antisymm this hleg.2.1
  · obtain ⟨bs, s', hrun, hpush, hsafe', hcall', hq', hpushed⟩ := hsafe.completes
    refine ⟨bs, s', hrun, hpush, hpushed, ?_⟩
    intro i hi
    have horder := hsafe'.order i (by rw [slaves_of_run hrun]; omega)
    unfold owed at horder
    rw [hcall', hpushed] at horder
    rw [hq', append_nil] at horder
    exact horder

/-- Two slaves; the first sends a message while it is handed one. -/
def nestedPush : List MsgAct :=
  [.push ⟨2, 0⟩, .fire, .handle, .push ⟨1, 0⟩, .handle, .finish, .fire, .handle]

/-- The theorem at that run, in the middle of the second call. -/
theorem messages_delivered_nested_push : ∃ s, exec (guardFn step Legal)
        (start (.default 10 []) (SimpleEnergySM.new 1 2) 0 2) nestedPush = some s ∧
      (∀ i < 2, s.delivered i = s.pushed.take (handed nestedPush s i)) ∧
      s.delivered 0 = [⟨2, 0⟩, ⟨1, 0⟩] ∧ s.delivered 1 = [⟨2, 0⟩] := by
  refine exec_observe (fun s => (s.delivered 0, s.delivered 1))
    ([⟨2, 0⟩, ⟨1, 0⟩], [⟨2, 0⟩]) (by decide +kernel) fun s hs hd => ?_
  have hrun := exec_guardFn_iff.mp hs
  exact ⟨(messages_delivered_once_in_order hrun).2.2.1, congrArg Prod.fst hd,
    congrArg Prod.snd hd⟩

end MsgSys

end NvpSim.Energy
