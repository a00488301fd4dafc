/-
  Servicing events: `EventQueue::serviceOne`, and what holds at every moment of a simulation.

  `serviceOne` unlinks the head, moves `curTick` to its `when` and calls its `process()`, which may call back
  into the queue.  The call is therefore cut in two, `takeHead` and `release`, and a simulation is a run of
  SMALL steps: take the head, any number of calls on the queue, release the event (`serviceOne_run`).
-/
import NvpSim.Sim.QueueRefinement

namespace NvpSim.Sim

open NvpSim.Lib NvpSim.Lib.Agenda List Option Function

namespace EventQueue

variable {n : Nat}

/-! ## `serviceOne` -/

/-- The first half of `serviceOne`: unlink the head and clear its mark. -/
def takeHead (q : EventQueue n) : Option (Fin n × EventQueue n) :=
  match q.head with
  | none => none
  | some event =>
    let q := q.setObj event { q.obj event with scheduled := false }
    match q.nextInBin event with
    -- the next bin pointer of the new top could be stale
    | some next =>
      some (event, { q with
        nextBin := update q.nextBin next (q.nextBin event), head := some next })
    | none => some (event, { q with head := q.nextBin event })

def setCurTick (q : EventQueue n) (t : Tick) : EventQueue n := { q with curTick := t }

/-- `if (event->flags.isSet(AutoDelete) && !event->scheduled()) delete event;` -/
def deleteIfDone (q : EventQueue n) (event : Fin n) : Option (EventQueue n) :=
  if (q.obj event).autoDelete = true ∧ (q.obj event).scheduled = false then q.delete event
  else some q

/-- The second half of `serviceOne`, after `process()`: the queue, and the exit event if it is
    one. -/
def release (q : EventQueue n) (event : Fin n) : Option (EventQueue n × Option (Fin n)) :=
  if (q.obj event).isExitEvent then
    if (q.obj event).autoDelete = true ∧ (q.obj event).isMainQueue = true then none
    else some (q, some event)
  else (q.deleteIfDone event).map (fun q => (q, none))

/-- A squashed event is not processed; it only loses its mark. -/
def skip (q : EventQueue n) (event : Fin n) : Option (EventQueue n) :=
  (q.setObj event { q.obj event with squashed := false }).deleteIfDone event

/-- `serviceOne()`, where `process()` makes the calls `handler` in order. -/
def serviceOne (q : EventQueue n) (handler : List (QueueCall n)) : Option (EventQueue n × Option (Fin n)) := do
  let (event, q) ← q.takeHead
  if (q.obj event).squashed then (q.skip event).map (fun q => (q, none))
  else do
    let q ← exec call (q.setCurTick (q.obj event).when) handler
    q.release event

end EventQueue

/-! ## The simulation in small steps -/

/-- A queue in the middle of a simulation: the event being processed, if any, and the marks. -/
structure Simulation (n : Nat) where
  queue : EventQueue n
  running : Option (Fin n)
  clock : Nat
  stamp : Fin n → Nat
  live : Fin n → Bool

/-- The small steps. -/
inductive SimStep (n : Nat) where
  | take
  | call (c : QueueCall n)
  | release

namespace Simulation

variable {n : Nat}

/-- Before the first call. -/
def start (q : EventQueue n) : Simulation n := ⟨q, none, 1, fun _ => 0, fun _ => false⟩

/-- The marks after a call. -/
def note (s : Simulation n) : QueueCall n → Simulation n
  | .schedule e _ | .reschedule e _ _ =>
    { s with
      clock := s.clock + 1
      stamp := update s.stamp e s.clock
      live := update s.live e true }
  | .deschedule e | .squash e => { s with live := update s.live e false }

/-- One small step; a squashed event is taken and skipped in one. -/
def step (s : Simulation n) : SimStep n → Option (Simulation n)
  | .take => do
    let (event, q) ← s.queue.takeHead
    let s := { s with live := update s.live event false }
    if (q.obj event).squashed then (q.skip event).map (fun q => { s with queue := q })
    else some { s with queue := q.setCurTick (q.obj event).when, running := some event }
  | .call c => (s.queue.call c).map (fun q => { s.note c with queue := q })
  | .release =>
    match s.running with
    | none => none
    | some event =>
      (s.queue.release event).map (fun r => { s with queue := r.1, running := none })

/-- One event is processed at a time; calls meet their asserted preconditions. -/
def Legal (s : Simulation n) : SimStep n → Prop
  | .take => s.running = none
  | .call c => s.queue.Asserted c
  | .release => s.running ≠ none

instance (s : Simulation n) (a : SimStep n) : Decidable (s.Legal a) :=
  match a with
  | .take => inferInstanceAs (Decidable (s.running = none))
  | .call c => inferInstanceAs (Decidable (s.queue.Asserted c))
  | .release => inferInstanceAs (Decidable (s.running ≠ none))

end Simulation

/-! ## Unlinking the head -/

namespace EventQueue

variable {n : Nat} {q q' : EventQueue n} {bins : List (Bin n)} {e : Fin n}

theorem Rep.sorted (h : q.Rep bins) : Sorted (q.agenda bins) := pairwise_map.mpr h.keyed.flat_sorted

theorem Valid.scheduled_of_head (h : q.Valid bins) (hhead : q.head = some e) : (q.obj e).scheduled = true := by
  rw [h.scheduled_iff]
  cases bins with
  | nil => rw [h.rep.linked.chain] at hhead; cases hhead
  | cons b bins =>
    obtain rfl : b.1 = e := some.inj (h.rep.linked.chain.1.symm.trans hhead)
    exact mem_cons_self

theorem head_of_takeHead (h : q.takeHead = some (e, q')) : q.head = some e := by
  unfold takeHead at h
  split at h
  · cases h
  · rename_i hhead
    simp only at h
    split at h <;> cases h <;> exact hhead

/-- **Unlinking the head** takes the first entry off the agenda. -/
theorem Valid.takeHead (h : q.Valid bins) (hhead : q.head = some e) :
    ∃ q' bins', q.takeHead = some (e, q') ∧ q'.Valid bins' ∧ q.agenda bins = (q.key e, e) :: q'.agenda bins' ∧
      q'.obj = update q.obj e { q.obj e with scheduled := false } ∧ q'.curTick = q.curTick := by
  cases bins with
  | nil => rw [h.rep.linked.chain] at hhead; cases hhead
  | cons b bins =>
    obtain rfl : b.1 = e := some.inj (h.rep.linked.chain.1.symm.trans hhead)
    have hL : q.Linked (some b.1) (b :: bins) none := hhead ▸ h.rep.linked
    obtain ⟨q₁, p, hitem, hL₁, x, -, v, w, hframe⟩ :=
      removeItem_linked hL (mem_cons_self (a := b.1)) h.rep.nodup
    have hobj : q₁.obj = q.obj := by rw [hframe]
    have hkey : q₁.key = q.key := by funext x; simp only [key, hobj]
    have hflat : flat (without b.1 b ++ bins) = b.2 ++ flat bins := by
      rw [flat_append, flat_without, erase_cons_head]
    have hnd : (b.1 :: (b.2 ++ flat bins)).Nodup := h.rep.nodup
    -- without its head the queue is valid but for the event taken off
    have hbut : ValidBut b.1 { q₁ with head := p } (without b.1 b ++ bins) := by
      refine ⟨⟨⟨hL₁.chain, hL₁.stack⟩, ?_, ?_⟩, ?_, ?_, ?_⟩
      · show Keyed q₁.key _
        have hkeyed : Keyed q.key ([] ++ b :: bins) := h.rep.keyed
        rw [hkey]
        exact hkeyed.without
      · rw [hflat]; exact (nodup_cons.mp hnd).2
      · rw [hflat]; exact (nodup_cons.mp hnd).1
      · intro y hy
        show (q₁.obj y).scheduled = true ↔ _
        rw [hobj, h.scheduled_iff, hflat, flat_cons, cons_append]
        simp [hy]
      · intro y hy
        show (q₁.obj y).queue = some q₁.self
        rw [hobj, h.queue y (by rw [hflat] at hy; exact mem_cons_of_mem _ hy), hframe]
    have hmarked := hbut.setObj { q.obj b.1 with scheduled := false }
    refine ⟨_, _, ?_, hmarked.valid (by simp), ?_, ?_, ?_⟩
    · -- `takeHead` does to the pointers what `removeItem` does for the top of the head bin
      rw [removeItem] at hitem
      cases hnext : q.nextInBin b.1 with
      | none | some next =>
        simp only [hnext] at hitem
        obtain ⟨rfl, rfl⟩ := hitem
        simp [EventQueue.takeHead, hhead, EventQueue.setObj, hnext]
    · rw [hbut.agenda_setObj]
      show _ = _ :: (flat (without b.1 b ++ bins)).map (fun e => (q₁.key e, e))
      rw [hflat, hkey]
      rfl
    · simp [hobj]
    · show q₁.curTick = q.curTick
      rw [hframe]

/-- A step that leaves the bins, the clock and every scheduled event alone. -/
structure Quiet (q q' : EventQueue n) : Prop where
  valid : ∀ {bins}, q.Valid bins → q'.Valid bins ∧ q'.agenda bins = q.agenda bins
  curTick : q'.curTick = q.curTick
  obj : ∀ x, (q'.obj x).scheduled = true → q'.obj x = q.obj x

namespace Quiet

theorem refl (q : EventQueue n) : Quiet q q := ⟨fun h => ⟨h, rfl⟩, rfl, fun _ _ => rfl⟩

theorem trans {q'' : EventQueue n} (h : Quiet q q') (h' : Quiet q' q'') : Quiet q q'' where
  valid := by
    intro bins hvalid
    obtain ⟨hvalid', hagenda⟩ := h.valid hvalid
    obtain ⟨hvalid'', hagenda'⟩ := h'.valid hvalid'
    exact ⟨hvalid'', hagenda'.trans hagenda⟩
  curTick := h'.curTick.trans h.curTick
  obj := by
    intro x hx
    have hx' := h'.obj x hx
    rw [hx'] at hx ⊢
    exact h.obj x hx

theorem setObj (hs : (q.obj e).scheduled = false) {o : EventObj} (ho : o.scheduled = false) :
    Quiet q (q.setObj e o) where
  valid := fun h => ⟨((h.but hs).setObj o).valid (by simp [ho]), (h.but hs).agenda_setObj⟩
  curTick := rfl
  obj := by
    intro x hx
    by_cases hxe : x = e
    · subst hxe; simp [ho] at hx
    · simp [hxe]

theorem deleteIfDone (hdel : q.deleteIfDone e = some q') : Quiet q q' := by
  unfold EventQueue.deleteIfDone at hdel
  split at hdel
  · rename_i hdone
    rw [delete, if_neg (by simp [hdone.2])] at hdel
    cases hdel
    exact setObj hdone.2 rfl
  · cases hdel; exact refl q

theorem skip (hs : (q.obj e).scheduled = false) (hskip : q.skip e = some q') : Quiet q q' :=
  (setObj (o := { q.obj e with squashed := false }) hs hs).trans (deleteIfDone hskip)

theorem release {r : EventQueue n × Option (Fin n)} (hrel : q.release e = some r) : Quiet q r.1 := by
  unfold EventQueue.release at hrel
  split at hrel
  · split at hrel
    · cases hrel
    · cases hrel; exact refl q
  · obtain ⟨q', hq', rfl⟩ := map_eq_some_iff.mp hrel
    exact deleteIfDone hq'

end Quiet

end EventQueue

/-! ## The invariant of a simulation -/

namespace Simulation

variable {n : Nat} {s s' : Simulation n} {a : SimStep n}

/-- The queue is valid and its ties stand in the order of insertion; nothing scheduled lies in the
    past; what is scheduled and not squashed is live. -/
structure Inv (s : Simulation n) : Prop where
  queue : ∃ bins, s.queue.Valid bins ∧ Lifo s.stamp (s.queue.agenda bins)
  future : ∀ e, (s.queue.obj e).scheduled = true → s.queue.curTick ≤ (s.queue.obj e).when
  young : ∀ e, s.stamp e < s.clock
  live : ∀ e, (s.queue.obj e).scheduled = true → (s.queue.obj e).squashed = false → s.live e = true

variable {q : EventQueue n} {c : QueueCall n} {handler : List (QueueCall n)}

/-- The agenda has the scheduled events. -/
theorem mem_agenda {bins : List (Bin n)} (h : q.Valid bins) {x : Entry n} :
    x ∈ q.agenda bins ↔ (q.obj x.2).scheduled = true ∧ x.1 = q.key x.2 := by
  rw [EventQueue.agenda, List.mem_map, h.scheduled_iff]
  constructor
  · rintro ⟨e, he, rfl⟩; exact ⟨he, rfl⟩
  · rintro ⟨he, hkey⟩; exact ⟨x.2, he, by rw [← hkey]⟩

/-- **The head of the queue is due first**: no scheduled event has a smaller key, and of equal keys
    it was inserted last. -/
theorem Inv.head_first (h : s.Inv) {e : Fin n} (hhead : s.queue.head = some e) {x : Fin n}
    (hx : (s.queue.obj x).scheduled = true) (hne : x ≠ e) :
    s.queue.key e < s.queue.key x ∨ (s.queue.key e = s.queue.key x ∧ s.stamp x < s.stamp e) := by
  obtain ⟨bins, hvalid, hlifo⟩ := h.queue
  obtain ⟨q', bins', -, -, hagenda, -⟩ := hvalid.takeHead hhead
  have hmem : (s.queue.key x, x) ∈ s.queue.agenda bins := (mem_agenda hvalid).mpr ⟨hx, rfl⟩
  have hsorted := hvalid.rep.sorted
  rw [hagenda] at hmem hlifo hsorted
  have htail := (mem_cons.mp hmem).resolve_left fun hc => hne (congrArg Prod.snd hc)
  exact Agenda.head_first hsorted hlifo htail

theorem when_le_of_key_le {a b : Fin n} (h : q.key a ≤ q.key b) : (q.obj a).when ≤ (q.obj b).when := by
  rcases Prod.Lex.toLex_le_toLex.mp h with hlt | heq
  · exact Nat.le_of_lt hlt
  · exact Nat.le_of_eq heq.1

section

variable (h : s.Inv)

include h

theorem Inv.quiet (hq : s.queue.Quiet q) : Inv { s with queue := q } := by
  obtain ⟨bins, hvalid, hlifo⟩ := h.queue
  obtain ⟨hvalid', hagenda⟩ := hq.valid hvalid
  refine ⟨⟨bins, hvalid', hagenda ▸ hlifo⟩, ?_, h.young, ?_⟩
  · intro x hx
    have hsame := hq.obj x hx
    show q.curTick ≤ (q.obj x).when
    rw [hq.curTick, hsame]
    exact h.future x (hsame ▸ hx)
  · intro x hx hsq
    have hsame := hq.obj x hx
    exact h.live x (hsame ▸ hx) (hsame ▸ hsq)

theorem Inv.live_of_processed (hidle : s.running = none) {e : Fin n} (hs : s.step .take = some s')
    (hrun : s'.running = some e) : s.live e = true := by
  obtain ⟨⟨e', q⟩, htake, hs⟩ := bind_eq_some_iff.mp hs
  obtain ⟨bins, hvalid, -⟩ := h.queue
  have hhead := EventQueue.head_of_takeHead htake
  obtain ⟨q', -, htake', -, -, hobj, -⟩ := hvalid.takeHead hhead
  cases htake.symm.trans htake'
  simp only at hs
  split at hs
  · -- a skipped event is not processed
    obtain ⟨q', -, rfl⟩ := map_eq_some_iff.mp hs
    rw [hidle] at hrun
    cases hrun
  · rename_i hsq
    cases hs
    cases hrun
    refine h.live e (hvalid.scheduled_of_head hhead) ?_
    simpa [hobj] using hsq

/-- **The head is taken** off the queue. -/
theorem Inv.takeHead {e : Fin n} (htake : s.queue.takeHead = some (e, q)) :
    Inv { s with queue := q, live := update s.live e false } ∧
      s.queue.curTick ≤ (q.obj e).when ∧ q.curTick = s.queue.curTick ∧ (q.obj e).scheduled = false ∧
      ∀ x, (q.obj x).scheduled = true → (q.obj e).when ≤ (q.obj x).when := by
  have hhead : s.queue.head = some e := EventQueue.head_of_takeHead htake
  obtain ⟨bins, hvalid, hlifo⟩ := h.queue
  obtain ⟨q', bins', htake', hvalid', hagenda, hobj, htick⟩ := hvalid.takeHead hhead
  cases htake.symm.trans htake'
  have hwhen : (q.obj e).when = (s.queue.obj e).when := by simp [hobj]
  -- what is still scheduled was scheduled before and is another event
  have hold : ∀ x, (q.obj x).scheduled = true → x ≠ e ∧ q.obj x = s.queue.obj x := by
    intro x hx
    by_cases hxe : x = e
    · subst hxe; simp [hobj] at hx
    · exact ⟨hxe, by simp [hobj, hxe]⟩
  refine ⟨⟨⟨bins', hvalid', (hagenda ▸ hlifo).of_cons⟩, ?_, h.young, ?_⟩, ?_, htick,
    by simp [hobj], ?_⟩
  · intro x hx
    obtain ⟨-, hsame⟩ := hold x hx
    show q.curTick ≤ (q.obj x).when
    rw [htick, hsame]
    exact h.future x (hsame ▸ hx)
  · intro x hx hsq
    obtain ⟨hne, hsame⟩ := hold x hx
    show update s.live e false x = true
    rw [update_of_ne hne]
    exact h.live x (hsame ▸ hx) (hsame ▸ hsq)
  · rw [hwhen]; exact h.future e (hvalid.scheduled_of_head hhead)
  · intro x hx
    obtain ⟨hne, hsame⟩ := hold x hx
    rw [hwhen, hsame]
    refine when_le_of_key_le ?_
    rcases h.head_first hhead (hsame ▸ hx) hne with hlt | ⟨heq, -⟩
    · exact hlt.le
    · exact heq.le

theorem Inv.setCurTick {t : Tick} (ht : ∀ x, (s.queue.obj x).scheduled = true → t ≤ (s.queue.obj x).when) :
    Inv { s with queue := s.queue.setCurTick t } := by
  obtain ⟨bins, hvalid, hlifo⟩ := h.queue
  exact ⟨⟨bins, ⟨⟨⟨hvalid.rep.linked.chain, hvalid.rep.linked.stack⟩, hvalid.rep.keyed,
    hvalid.rep.nodup⟩, hvalid.scheduled_iff, hvalid.queue⟩, hlifo⟩, ht, h.young, h.live⟩

theorem Inv.setRunning (r : Option (Fin n)) : Inv { s with running := r } :=
  { h with }

/-- **An event is taken**: the time does not go back. -/
theorem Inv.take (hs : s.step .take = some s') : s'.Inv ∧ s.queue.curTick ≤ s'.queue.curTick := by
  obtain ⟨⟨e, q⟩, htake, hs⟩ := bind_eq_some_iff.mp hs
  obtain ⟨hinv, hpast, htick, hse, hfirst⟩ := h.takeHead htake
  simp only at hs
  split at hs
  · -- squashed: skipped, the clock stays
    obtain ⟨q', hskip, rfl⟩ := map_eq_some_iff.mp hs
    have hquiet := EventQueue.Quiet.skip hse hskip
    exact ⟨hinv.quiet hquiet, (hquiet.curTick.trans htick).ge⟩
  · -- processed: the clock moves to the event's time
    cases hs
    exact ⟨(hinv.setCurTick hfirst).setRunning _, hpast⟩

theorem Inv.lifo_call {bins : List (Bin n)} (hvalid : s.queue.Valid bins)
    (hlifo : Lifo s.stamp (s.queue.agenda bins)) (hc : s.queue.Asserted c) :
    Lifo (s.note c).stamp (EventQueue.agendaStep (fun e => (s.queue.obj e).priority) (s.queue.agenda bins) c) := by
  -- an entry is younger than all others, and they do not notice its stamp
  have henter : ∀ {l : List (Entry n)} {x : Entry n}, Sorted l → Lifo s.stamp l →
      (∀ y ∈ l, y.2 ≠ x.2) → Lifo (update s.stamp x.2 s.clock) (enter l x) := by
    intro l x hsorted hl hother
    refine (hl.congr fun y hy => update_of_ne (hother y hy) _ _).enter hsorted x ?_
    intro y hy
    rw [update_of_ne (hother y hy), update_self]
    exact h.young y.2
  have hsorted := hvalid.rep.sorted
  cases c with
  | schedule e w =>
    refine henter (x := (_, e)) hsorted hlifo fun y hy hye => ?_
    have hs := ((mem_agenda hvalid).mp hy).1
    rw [hye, hc.2.1] at hs
    cases hs
  | deschedule e => exact hlifo.strike e
  | reschedule e w always =>
    exact henter (x := (_, e)) (hsorted.strike e) (hlifo.strike e) fun y hy => (mem_strike.mp hy).2
  | squash e => exact hlifo

theorem Inv.event_call (hc : s.queue.Asserted c) (x : Fin n) (hx : (s.queue.objStep c x).scheduled = true) :
    s.queue.curTick ≤ (s.queue.objStep c x).when ∧
      ((s.queue.objStep c x).squashed = false → (s.note c).live x = true) := by
  have hold := h.future x
  have hlive := h.live x
  cases c with
  | schedule e w | reschedule e w always =>
    by_cases hxe : x = e
    · subst hxe
      exact ⟨by simpa [EventQueue.objStep] using hc.1, fun _ => by simp [note]⟩
    · simp only [EventQueue.objStep, note, update_of_ne hxe] at hx ⊢
      exact ⟨hold hx, hlive hx⟩
  | deschedule e =>
    by_cases hxe : x = e
    · subst hxe
      by_cases hauto : (s.queue.obj x).autoDelete = true <;>
        simp [EventQueue.objStep, hauto, EventObj.deleted] at hx
    · simp only [EventQueue.objStep, note, update_of_ne hxe] at hx ⊢
      exact ⟨hold hx, hlive hx⟩
  | squash e =>
    by_cases hxe : x = e
    · subst hxe
      simp only [EventQueue.objStep, update_self] at hx ⊢
      exact ⟨hold hx, fun hsq => by cases hsq⟩
    · simp only [EventQueue.objStep, note, update_of_ne hxe] at hx ⊢
      exact ⟨hold hx, hlive hx⟩

theorem Inv.young_note (c : QueueCall n) (x : Fin n) : (s.note c).stamp x < (s.note c).clock := by
  have hx := h.young x
  cases c with
  | schedule e w | reschedule e w always =>
    by_cases hxe : x = e
    · subst hxe; simp [note]
    · simp only [note, update_of_ne hxe]; omega
  | deschedule e | squash e => exact hx

/-- **A call** of the handler, or from outside, keeps the invariant. -/
theorem Inv.call (hc : s.queue.Asserted c) (hs : s.step (.call c) = some s') :
    s'.Inv ∧ s'.queue.curTick = s.queue.curTick := by
  obtain ⟨bins, hvalid, hlifo⟩ := h.queue
  obtain ⟨q', bins', hcall, hvalid', hagenda, hobj, htick, -⟩ :=
    EventQueue.call_refines hvalid hc
  have hs' : { s.note c with queue := q' } = s' := by
    simpa [step, hcall] using hs
  subst hs'
  refine ⟨⟨⟨bins', hvalid', hagenda ▸ h.lifo_call hvalid hlifo hc⟩, ?_, h.young_note c, ?_⟩, htick⟩
  · intro x hx
    show q'.curTick ≤ (q'.obj x).when
    rw [htick, hobj]
    exact (h.event_call hc x (hobj ▸ hx)).1
  · intro x hx hsq
    exact (h.event_call hc x (hobj ▸ hx)).2 (hobj ▸ hsq)

/-- **The handler is done.** -/
theorem Inv.release (hs : s.step .release = some s') : s'.Inv ∧ s'.queue.curTick = s.queue.curTick := by
  cases hrun : s.running with
  | none => simp [step, hrun] at hs
  | some e =>
    simp only [step, hrun] at hs
    obtain ⟨r, hrel, rfl⟩ := map_eq_some_iff.mp hs
    have hquiet := EventQueue.Quiet.release hrel
    exact ⟨(h.quiet hquiet).setRunning none, hquiet.curTick⟩

/-- **One small step keeps the invariant, and the clock never goes back.** -/
theorem Inv.step (hlegal : s.Legal a) (hs : s.step a = some s') : s'.Inv ∧ s.queue.curTick ≤ s'.queue.curTick := by
  cases a with
  | take => exact h.take hs
  | call c =>
    obtain ⟨hinv, htick⟩ := h.call hlegal hs
    exact ⟨hinv, htick.ge⟩
  | release =>
    obtain ⟨hinv, htick⟩ := h.release hs
    exact ⟨hinv, htick.ge⟩

end

/-- At the start no event is scheduled. -/
theorem inv_start {self : Nat} {t : Tick} {obj : Fin n → EventObj}
    (hobj : ∀ e, (obj e).scheduled = false) : (start (EventQueue.new self t obj)).Inv where
  queue := ⟨[], EventQueue.Valid.new hobj, List.Pairwise.nil⟩
  future := by
    intro e he
    have he' : (obj e).scheduled = true := he
    rw [hobj e] at he'
    cases he'
  young := fun _ => Nat.one_pos
  live := by
    intro e he
    have he' : (obj e).scheduled = true := he
    rw [hobj e] at he'
    cases he'

/-! ## `serviceOne` is a run of small steps -/

/-- The calls of a handler are steps of a run. -/
theorem run_calls (h : exec EventQueue.call s.queue handler = some q) :
    ∃ s', Run (Guarded (stepOf step) Legal) s (handler.map .call) s' ∧ s'.queue = q ∧ s'.running = s.running := by
  induction handler generalizing s with
  | nil => cases h; exact ⟨s, .nil, rfl, rfl⟩
  | cons c handler ih =>
    obtain ⟨q₁, hcall, hrest⟩ := bind_eq_some_iff.mp h
    obtain ⟨s', hrun, hq, hrunning⟩ := ih (s := { s.note c with queue := q₁ }) hrest
    refine ⟨s', Run.cons ⟨?_, EventQueue.asserted_of_call hcall⟩ hrun, hq, ?_⟩
    · simp [stepOf, step, hcall]
    · rw [hrunning]; cases c <;> rfl

/-- **`serviceOne` is a run**: take the head, the calls of its handler, release it. -/
theorem serviceOne_run (hidle : s.running = none) {r : EventQueue n × Option (Fin n)}
    (h : s.queue.serviceOne handler = some r) :
    ∃ as s', (as = [.take] ∨ as = .take :: handler.map .call ++ [.release]) ∧
      Run (Guarded (stepOf step) Legal) s as s' ∧ s'.queue = r.1 ∧ s'.running = none := by
  obtain ⟨⟨e, q⟩, htake, h⟩ := bind_eq_some_iff.mp h
  simp only at h
  split at h
  · rename_i hsq
    obtain ⟨q', hskip, rfl⟩ := map_eq_some_iff.mp h
    refine ⟨[.take], { s with queue := q', live := update s.live e false }, .inl rfl,
      Run.nil.snoc ⟨?_, hidle⟩, rfl, hidle⟩
    simp only [stepOf, step, htake, bind_eq_bind, bind_some, if_pos hsq, hskip]
    rfl
  · rename_i hsq
    obtain ⟨q', hcalls, hrel⟩ := bind_eq_some_iff.mp h
    let s₁ : Simulation n := { s with
      queue := q.setCurTick (q.obj e).when, live := update s.live e false,
      running := some e }
    have hstep : s.step .take = some s₁ := by
      simp only [step, htake, bind_eq_bind, bind_some, if_neg hsq]
      rfl
    obtain ⟨s₂, hrun, rfl, hrunning⟩ := run_calls (s := s₁) hcalls
    have hrunning' : s₂.running = some e := hrunning
    refine ⟨_, { s₂ with queue := r.1, running := none }, .inr rfl,
      (Run.cons ⟨hstep, hidle⟩ hrun).snoc (a := .release) ⟨?_, ?_⟩, rfl, rfl⟩
    · simp [stepOf, step, hrunning', hrel]
    · show s₂.running ≠ none
      rw [hrunning']; simp

/-! ## Every simulation -/

/-- **Servicing order.**  At every moment of every simulation, also in the middle of a handler,
    nothing queued lies in the past and no step moves the clock back; the event that would be
    taken next is minimal among the queued ones and the last inserted among ties; and an event is
    processed only if it was neither squashed nor descheduled since its last insertion.  Calls of
    `serviceOne` are made of such steps. -/
theorem service_order {self : Nat} {t : Tick} {obj : Fin n → EventObj}
    (hobj : ∀ e, (obj e).scheduled = false) {as : List (SimStep n)}
    (h : Run (Guarded (stepOf step) Legal) (start (EventQueue.new self t obj)) as s) :
    (∀ e ∈ s.queue.contents, s.queue.curTick ≤ (s.queue.obj e).when) ∧
      (∀ a s', s.Legal a → s.step a = some s' → s.queue.curTick ≤ s'.queue.curTick) ∧
      (∀ e q, s.queue.takeHead = some (e, q) → e ∈ s.queue.contents ∧
        ∀ x ∈ s.queue.contents, x ≠ e → s.queue.key e < s.queue.key x ∨
          (s.queue.key e = s.queue.key x ∧ s.stamp x < s.stamp e)) ∧
      (∀ e s', s.running = none → s.step .take = some s' → s'.running = some e → s.live e = true) ∧
      (∀ handler r, s.running = none → s.queue.serviceOne handler = some r →
        ∃ bs s', (bs = [.take] ∨ bs = .take :: handler.map .call ++ [.release]) ∧
          Run (Guarded (stepOf step) Legal) s bs s' ∧ s'.queue = r.1 ∧ s'.running = none) := by
  have hinv : s.Inv :=
    h.inv (P := Inv) (fun s a s' hinv hs => (hinv.step hs.2 hs.1).1) (inv_start hobj)
  obtain ⟨bins, hvalid, -⟩ := hinv.queue
  have hmem : ∀ e, e ∈ s.queue.contents ↔ (s.queue.obj e).scheduled = true :=
    fun e => hvalid.mem_contents
  refine ⟨?_, fun a s' hlegal hs => (hinv.step hlegal hs).2, ?_, ?_,
    fun handler r hidle hr => serviceOne_run hidle hr⟩
  · intro e he
    exact hinv.future e ((hmem e).mp he)
  · intro e q htake
    have hhead := EventQueue.head_of_takeHead htake
    refine ⟨(hmem e).mpr (hvalid.scheduled_of_head hhead), fun x hx hne => ?_⟩
    exact hinv.head_first hhead ((hmem x).mp hx) hne
  · intro e s' hidle hs hrun
    exact hinv.live_of_processed hidle hs hrun

/-- `service_order` on three events: while `0` is processed, `1` is squashed and `2` moves in front
    of it; then `2` is processed and `1` is skipped. -/
theorem service_order_three : ∃ s : Simulation 3, exec (guardFn step Legal)
        (start (EventQueue.new 0 0 (fun _ => EventObj.new 0 false false false)))
        [.call (.schedule 0 2), .call (.schedule 1 5), .call (.schedule 2 9), .take,
          .call (.squash 1), .call (.reschedule 2 5 false), .release] = some s ∧
      s.queue.contents = [2, 1] ∧ s.queue.curTick = 2 ∧ (s.step .take).map (fun s => s.running) = some (some 2) ∧
      ∀ e ∈ s.queue.contents, s.queue.curTick ≤ (s.queue.obj e).when := by
  refine exec_observe (fun s => (s.queue.contents, s.queue.curTick, (s.step .take).map (fun s => s.running)))
    ([2, 1], 2, some (some 2)) (by decide +kernel) fun s hs hobs => ?_
  simp only [Prod.mk.injEq] at hobs
  exact ⟨hobs.1, hobs.2.1, hobs.2.2, (service_order (fun _ => rfl) (exec_guardFn_iff.mp hs)).1⟩

end Simulation
end NvpSim.Sim
