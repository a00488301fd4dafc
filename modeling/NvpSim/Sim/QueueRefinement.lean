/-
  The event queue refines a SORTED LIST.

  What the simulator needs is an agenda: the scheduled events in the order of `(when, priority)`, and of two
  with equal keys the one entered LAST first.

  `Valid q bins` adds the flags to `Rep`: an event is marked scheduled exactly when it is in a bin.
-/
import NvpSim.Sim.BinList
import NvpSim.Lib.Agenda
import NvpSim.Lib.Run

namespace NvpSim.Sim

open NvpSim.Lib NvpSim.Lib.Agenda List Option Function

/-- An entry of the agenda: the key `(when, priority)` and the event. -/
abbrev Entry (n : Nat) := (Tick ×ₗ Int) × Fin n

/-! ## The calls and their asserted preconditions -/

/-- The calls on a queue. -/
inductive QueueCall (n : Nat) where
  | schedule (e : Fin n) (when : Tick)
  | deschedule (e : Fin n)
  | reschedule (e : Fin n) (when : Tick) (always : Bool)
  | squash (e : Fin n)

namespace EventQueue

variable {n : Nat}

/-- The constructor of `EventQueue`, over event objects with their own members. -/
def new (self : Nat) (curTick : Tick) (obj : Fin n → EventObj) : EventQueue n where
  self := self
  head := none
  curTick := curTick
  nextBin := fun _ => none
  nextInBin := fun _ => none
  obj := obj

/-- Carry out a call. -/
def call (q : EventQueue n) : QueueCall n → Option (EventQueue n)
  | .schedule e w => q.schedule e w
  | .deschedule e => q.deschedule e
  | .reschedule e w always => q.reschedule e w always
  | .squash e => some (q.squash e)

/-- The preconditions that `eventq_impl.hh` asserts. -/
def Asserted (q : EventQueue n) : QueueCall n → Prop
  | .schedule e w =>
    q.curTick ≤ w ∧ (q.obj e).scheduled = false ∧ (q.obj e).initialized = true
  | .deschedule e => (q.obj e).scheduled = true ∧ (q.obj e).initialized = true
  | .reschedule e w always =>
    q.curTick ≤ w ∧ (always = true ∨ (q.obj e).scheduled = true) ∧ (q.obj e).initialized = true
  | .squash _ => True

instance (q : EventQueue n) (c : QueueCall n) : Decidable (q.Asserted c) :=
  match c with
  | .schedule _ _ => inferInstanceAs (Decidable (_ ∧ _ ∧ _))
  | .deschedule _ => inferInstanceAs (Decidable (_ ∧ _))
  | .reschedule _ _ _ => inferInstanceAs (Decidable (_ ∧ _ ∧ _))
  | .squash _ => inferInstanceAs (Decidable True)

/-- What a call does to the agenda; an event keeps its priority for life. -/
def agendaStep (priority : Fin n → Int) (l : List (Entry n)) : QueueCall n → List (Entry n)
  | .schedule e w => enter l (toLex (w, priority e), e)
  | .deschedule e => strike l e
  | .reschedule e w _ => enter (strike l e) (toLex (w, priority e), e)
  | .squash _ => l

/-- What a call does to the members of the events other than the pointers. -/
def objStep (q : EventQueue n) : QueueCall n → Fin n → EventObj
  | .schedule e w =>
    update q.obj e { q.obj e with when := w, queue := some q.self, scheduled := true }
  | .deschedule e =>
    let o := { q.obj e with squashed := false, scheduled := false }
    update q.obj e (if o.autoDelete then o.deleted else o)
  | .reschedule e w _ =>
    update q.obj e { q.obj e with when := w, queue := some q.self, squashed := false, scheduled := true }
  | .squash e => update q.obj e { q.obj e with squashed := true }

/-- The entries of a list of bins. -/
def agenda (q : EventQueue n) (bins : List (Bin n)) : List (Entry n) :=
  (flat bins).map (fun e => (q.key e, e))

/-- The bins represent the queue, and the marks of the events agree with them. -/
structure Valid (q : EventQueue n) (bins : List (Bin n)) : Prop where
  rep : q.Rep bins
  scheduled_iff : ∀ e, (q.obj e).scheduled = true ↔ e ∈ flat bins
  queue : ∀ e ∈ flat bins, (q.obj e).queue = some q.self

/-- The same, but for one event that is in no bin, whatever its mark says. -/
structure ValidBut (e : Fin n) (q : EventQueue n) (bins : List (Bin n)) : Prop where
  rep : q.Rep bins
  notMem : e ∉ flat bins
  scheduled_iff : ∀ x, x ≠ e → ((q.obj x).scheduled = true ↔ x ∈ flat bins)
  queue : ∀ x ∈ flat bins, (q.obj x).queue = some q.self

variable {q q' : EventQueue n} {bins : List (Bin n)} {e : Fin n} {o : EventObj}

/-! ## Members that the bins do not depend on -/

@[simp] theorem setObj_frame (q : EventQueue n) (e : Fin n) (o : EventObj) :
    (q.setObj e o).obj = update q.obj e o ∧ (q.setObj e o).curTick = q.curTick ∧
      (q.setObj e o).self = q.self := ⟨rfl, rfl, rfl⟩

theorem key_congr {x : Fin n} (h : (q'.obj x).when = (q.obj x).when)
    (h' : (q'.obj x).priority = (q.obj x).priority) : q'.key x = q.key x := by
  rw [key, key, h, h']

theorem key_setObj_of_ne {x : Fin n} (hx : x ≠ e) : (q.setObj e o).key x = q.key x := by
  simp [key, hx]

theorem Rep.setObj (h : q.Rep bins) (hkey : ∀ x ∈ flat bins, (q.setObj e o).key x = q.key x) :
    (q.setObj e o).Rep bins :=
  ⟨⟨h.linked.chain, h.linked.stack⟩, h.keyed.congr hkey, h.nodup⟩

theorem agenda_setObj (hkey : ∀ x ∈ flat bins, (q.setObj e o).key x = q.key x) :
    (q.setObj e o).agenda bins = q.agenda bins :=
  map_congr_left fun x hx => by rw [hkey x hx]

namespace ValidBut

section

variable (h : ValidBut e q bins)

include h

theorem setObj (o : EventObj) : ValidBut e (q.setObj e o) bins where
  rep := h.rep.setObj fun x hx => key_setObj_of_ne fun hc => h.notMem (hc ▸ hx)
  notMem := h.notMem
  scheduled_iff := by
    intro x hx
    simp only [setObj_frame, update_of_ne hx]
    exact h.scheduled_iff x hx
  queue := by
    intro x hx
    have hne : x ≠ e := fun hc => h.notMem (hc ▸ hx)
    simp only [setObj_frame, update_of_ne hne]
    exact h.queue x hx

theorem agenda_setObj : (q.setObj e o).agenda bins = q.agenda bins :=
  EventQueue.agenda_setObj fun _ hx => key_setObj_of_ne fun hc => h.notMem (hc ▸ hx)

theorem valid (hs : (q.obj e).scheduled = false) : q.Valid bins where
  rep := h.rep
  scheduled_iff := by
    intro x
    by_cases hx : x = e
    · subst hx
      simp [hs, h.notMem]
    · exact h.scheduled_iff x hx
  queue := h.queue

/-- **`insert` enters the event in the agenda**; then it may be marked scheduled. -/
theorem insert : ∃ q' bins', q.insert e = some q' ∧ q'.obj = q.obj ∧ q'.curTick = q.curTick ∧
      q'.self = q.self ∧ ∀ o : EventObj, o.when = (q.obj e).when → o.priority = (q.obj e).priority →
        o.queue = some q.self → o.scheduled = true → (q'.setObj e o).Valid bins' ∧
          (q'.setObj e o).agenda bins' = enter (q.agenda bins) (q.key e, e) := by
  obtain ⟨q', bins', hins, hrep, hflat, hobj, htick, hself⟩ := insert_rep h.rep h.notMem
  have hmem : ∀ x, x ∈ flat bins' ↔ x = e ∨ x ∈ flat bins := by
    intro x; rw [hflat, mem_orderedInsert]
  have hkey : q'.key = q.key := by funext x; simp only [key, hobj]
  refine ⟨q', bins', hins, hobj, htick, hself, fun o hw hp hq hs => ?_⟩
  -- the new members have the key the event was inserted with
  have hkeys : ∀ x ∈ flat bins', (q'.setObj e o).key x = q'.key x := by
    intro x _
    by_cases hx : x = e
    · subst hx
      exact key_congr (by simp [hw, hobj]) (by simp [hp, hobj])
    · exact key_setObj_of_ne hx
  refine ⟨⟨hrep.setObj hkeys, ?_, ?_⟩, ?_⟩
  · intro x
    rw [hmem]
    by_cases hx : x = e
    · subst hx; simp [hs]
    · simp only [setObj_frame, update_of_ne hx, hobj, hx, false_or]
      exact h.scheduled_iff x hx
  · intro x hx
    rcases (hmem x).mp hx with rfl | hx'
    · simp [hq, hself]
    · have hne : x ≠ e := fun hc => h.notMem (hc ▸ hx')
      simp only [setObj_frame, update_of_ne hne, hobj, hself]
      exact h.queue x hx'
  · rw [EventQueue.agenda_setObj hkeys, agenda, hkey, hflat, enter, agenda,
      map_orderedInsert (r := fun a b => q.key a ≤ q.key b) (s := fun a b : Entry n => a.1 ≤ b.1)] <;> simp

end

end ValidBut

namespace Valid

theorem but (h : q.Valid bins) (hs : (q.obj e).scheduled = false) : ValidBut e q bins where
  rep := h.rep
  notMem := by rw [← h.scheduled_iff, hs]; simp
  scheduled_iff := fun x _ => h.scheduled_iff x
  queue := h.queue

/-- **`remove` strikes the event from the agenda.** -/
theorem remove (h : q.Valid bins) (hs : (q.obj e).scheduled = true) :
    ∃ q' bins', q.remove e = some q' ∧ q'.obj = q.obj ∧ q'.curTick = q.curTick ∧
      q'.self = q.self ∧ ValidBut e q' bins' ∧ q'.agenda bins' = strike (q.agenda bins) e := by
  have he := (h.scheduled_iff e).mp hs
  obtain ⟨q', bins', hrem, hrep, hflat, hobj, htick, hself⟩ := remove_rep h.rep he (h.queue e he)
  have hkey : q'.key = q.key := by funext x; simp only [key, hobj]
  have hfilter : flat bins' = (flat bins).filter (· ≠ e) := by
    rw [hflat, h.rep.nodup.erase_eq_filter]
    exact filter_congr fun x _ => by by_cases hx : x = e <;> simp [hx]
  refine ⟨q', bins', hrem, hobj, htick, hself, ⟨hrep, ?_, ?_, ?_⟩, ?_⟩
  · simp [hfilter]
  · intro x hx
    rw [hobj, hfilter]
    simp [hx, h.scheduled_iff]
  · intro x hx
    rw [hfilter, mem_filter] at hx
    rw [hobj, hself]
    exact h.queue x hx.1
  · rw [agenda, hkey, hfilter, agenda, strike, List.filter_map]
    rfl

theorem new {self : Nat} {t : Tick} {obj : Fin n → EventObj}
    (hobj : ∀ e, (obj e).scheduled = false) : (EventQueue.new self t obj).Valid [] where
  rep := ⟨⟨rfl, by simp⟩, ⟨by simp, List.Pairwise.nil⟩, nodup_nil⟩
  scheduled_iff := fun e => by simp [EventQueue.new, hobj]
  queue := by simp

theorem contents_agenda (h : q.Valid bins) : q.contents.map (fun e => (q.key e, e)) = q.agenda bins := by
  rw [contents_eq h.rep, agenda]

theorem mem_contents (h : q.Valid bins) : e ∈ q.contents ↔ (q.obj e).scheduled = true := by
  rw [contents_eq h.rep, h.scheduled_iff]

theorem removeIfScheduled (h : q.Valid bins) (e : Fin n) : ∃ q' bins', q.removeIfScheduled e = some q' ∧
      q'.obj = q.obj ∧ q'.curTick = q.curTick ∧ q'.self = q.self ∧ ValidBut e q' bins' ∧
      q'.agenda bins' = strike (q.agenda bins) e := by
  by_cases hs : (q.obj e).scheduled = true
  · simp only [EventQueue.removeIfScheduled, hs, if_true]
    exact h.remove hs
  · have hs' : (q.obj e).scheduled = false := by simpa using hs
    have hbut := h.but hs'
    refine ⟨q, bins, by simp [EventQueue.removeIfScheduled, hs'], rfl, rfl, rfl, hbut, ?_⟩
    -- there is no entry to strike
    rw [strike, filter_eq_self.mpr]
    intro x hx
    obtain ⟨y, hy, rfl⟩ := List.mem_map.mp hx
    have hne : y ≠ e := fun heq => hbut.notMem (heq ▸ hy)
    simpa using hne

theorem setObj (h : q.Valid bins) (hw : o.when = (q.obj e).when)
    (hp : o.priority = (q.obj e).priority) (hs : o.scheduled = (q.obj e).scheduled) (hq : o.queue = (q.obj e).queue) :
    (q.setObj e o).Valid bins ∧ (q.setObj e o).agenda bins = q.agenda bins := by
  have hkeys : ∀ x ∈ flat bins, (q.setObj e o).key x = q.key x := by
    intro x _
    by_cases hx : x = e
    · subst hx; exact key_congr (by simp [hw]) (by simp [hp])
    · exact key_setObj_of_ne hx
  refine ⟨⟨h.rep.setObj hkeys, fun x => ?_, fun x hx => ?_⟩, agenda_setObj hkeys⟩
  · rw [← h.scheduled_iff]
    by_cases hx : x = e
    · subst hx; simp [hs]
    · simp [hx]
  · show _ = some q.self
    rw [← h.queue x hx]
    by_cases hxe : x = e
    · subst hxe; simp [hq]
    · simp [hxe]

theorem setWhen_insert (h : ValidBut e q bins) (w : Tick) (mark : EventObj → EventObj)
    (hmark : ∀ o, (mark o).when = o.when ∧ (mark o).priority = o.priority ∧
      (mark o).queue = o.queue ∧ (mark o).scheduled = true) : ∃ q' bins', (q.setWhen e w).insert e = some q' ∧
      let q'' := q'.setObj e (mark (q'.obj e))
      q''.Valid bins' ∧ q''.agenda bins' = enter (q.agenda bins) (toLex (w, (q.obj e).priority), e) ∧
        q''.obj = update q.obj e (mark { q.obj e with when := w, queue := some q.self }) ∧
        q''.curTick = q.curTick ∧ q''.self = q.self := by
  have hbut := h.setObj { q.obj e with when := w, queue := some q.self }
  obtain ⟨q', bins', hins, hobj, htick, hself, hdone⟩ := hbut.insert
  have hobj' : q'.obj e = { q.obj e with when := w, queue := some q.self } := by
    rw [hobj]; simp
  obtain ⟨hw, hp, hq, hs⟩ := hmark (q'.obj e)
  obtain ⟨hvalid, hagenda⟩ := hdone (mark (q'.obj e)) (by rw [hw, hobj]) (by rw [hp, hobj])
    (by rw [hq, hobj']; rfl) hs
  refine ⟨q', bins', hins, hvalid, ?_, ?_, htick, hself⟩
  · rw [hagenda, h.agenda_setObj]
    simp [key]
  · simp [hobj]

end Valid

/-! ## One call -/

/-- **One call of the refinement.**  A call whose asserted preconditions hold returns; it moves the
    agenda as `agendaStep` and the other members as `objStep` say. -/
theorem call_refines {c : QueueCall n} (h : q.Valid bins) (hc : q.Asserted c) :
    ∃ q' bins', q.call c = some q' ∧ q'.Valid bins' ∧
      q'.agenda bins' = agendaStep (fun e => (q.obj e).priority) (q.agenda bins) c ∧
      q'.obj = q.objStep c ∧ q'.curTick = q.curTick ∧ q'.self = q.self := by
  cases c with
  | schedule e w =>
    have hc' : q.curTick ≤ w ∧ (q.obj e).scheduled = false ∧ (q.obj e).initialized = true := hc
    obtain ⟨q', bins', hins, hvalid, hagenda, hobj, htick, hself⟩ :=
      Valid.setWhen_insert (h.but hc'.2.1) w (fun o => { o with scheduled := true }) (fun o => ⟨rfl, rfl, rfl, rfl⟩)
    refine ⟨_, bins', ?_, hvalid, hagenda, hobj, htick, hself⟩
    rw [call, schedule, if_pos hc', hins]
    rfl
  | deschedule e =>
    have hc' : (q.obj e).scheduled = true ∧ (q.obj e).initialized = true := hc
    obtain ⟨q', bins', hrem, hobj, htick, hself, hbut, hagenda⟩ := h.remove hc'.1
    have hmarked := hbut.setObj { q'.obj e with squashed := false, scheduled := false }
    by_cases hauto : (q'.obj e).autoDelete = true
    · -- the event is deleted: in no bin, not marked scheduled
      have hdel := hmarked.setObj ({ q'.obj e with squashed := false, scheduled := false }).deleted
      refine ⟨_, bins', ?_, hdel.valid (by simp [EventObj.deleted]), ?_, ?_, htick, hself⟩
      · simp [call, deschedule, hc', hrem, hauto, delete]
      · rw [hmarked.agenda_setObj, hbut.agenda_setObj, hagenda]
        rfl
      · simp [objStep, ← hobj, hauto]
    · refine ⟨_, bins', ?_, hmarked.valid (by simp), ?_, ?_, htick, hself⟩
      · simp [call, deschedule, hc', hrem, hauto]
      · rw [hbut.agenda_setObj, hagenda]
        rfl
      · simp [objStep, ← hobj, hauto]
  | reschedule e w always =>
    have hc' : q.curTick ≤ w ∧ (always = true ∨ (q.obj e).scheduled = true) ∧ (q.obj e).initialized = true := hc
    obtain ⟨q₁, bins₁, hleave, hobj₁, htick₁, hself₁, hbut₁, hagenda₁⟩ :=
      h.removeIfScheduled e
    obtain ⟨q', bins', hins, hvalid, hagenda, hobj, htick, hself⟩ :=
      Valid.setWhen_insert hbut₁ w (fun o => { o with squashed := false, scheduled := true })
        (fun o => ⟨rfl, rfl, rfl, rfl⟩)
    refine ⟨_, bins', ?_, hvalid, ?_, ?_, htick.trans htick₁, hself.trans hself₁⟩
    · rw [call, reschedule, if_pos hc']
      simp only [hleave, bind_eq_bind, bind_some, hins]
    · rw [hagenda, hagenda₁, hobj₁]; rfl
    · rw [hobj, hobj₁, hself₁]; rfl
  | squash e =>
    obtain ⟨hvalid, hagenda⟩ := h.setObj (e := e) (o := { q.obj e with squashed := true }) rfl rfl rfl rfl
    exact ⟨q.squash e, bins, rfl, hvalid, hagenda, rfl, rfl, rfl⟩

theorem asserted_of_call {c : QueueCall n} (h : q.call c = some q') : q.Asserted c := by
  cases c with
  | schedule e w | deschedule e | reschedule e w always => exact (ite_none_right_eq_some.mp h).1
  | squash e => trivial

/-! ## Every sequence of calls -/

theorem objStep_priority (q : EventQueue n) (c : QueueCall n) (x : Fin n) :
    (q.objStep c x).priority = (q.obj x).priority := by
  cases c with
  | schedule e w | reschedule e w always | squash e =>
    by_cases hx : x = e
    · subst hx; simp [objStep]
    · simp [objStep, hx]
  | deschedule e =>
    by_cases hx : x = e
    · subst hx
      by_cases hauto : (q.obj x).autoDelete = true <;> simp [objStep, hauto, EventObj.deleted]
    · simp [objStep, hx]

/-- **The bin list refines the agenda.**  After every sequence of calls whose asserted
    preconditions hold, a reader of the pointers sees exactly the agenda: sorted, each scheduled
    event once and no other; a new entry precedes all entries with its key; and every further call
    whose asserted preconditions hold returns. -/
theorem bin_list_refines {self : Nat} {t : Tick} {obj : Fin n → EventObj}
    (hobj : ∀ e, (obj e).scheduled = false) {cs : List (QueueCall n)} {q : EventQueue n}
    (h : Run (Guarded (stepOf call) Asserted) (new self t obj) cs q) :
    let l := cs.foldl (agendaStep (fun e => (obj e).priority)) []
    q.contents.map (fun e => (q.key e, e)) = l ∧ Sorted l ∧ q.contents.Nodup ∧
      (∀ e, e ∈ q.contents ↔ (q.obj e).scheduled = true) ∧
      (∀ x : Entry n, ∃ before after, l = before ++ after ∧ enter l x = before ++ x :: after ∧
        (∀ y ∈ before, y.1 < x.1) ∧ ∀ y ∈ after, x.1 ≤ y.1) ∧ ∀ c, q.Asserted c → ∃ q', q.call c = some q' := by
  -- the invariant: bins for the state, their agenda is the one of the calls, priorities are fixed
  obtain ⟨bins, hvalid, hagenda, hprio, hsorted⟩ := h.inv_hist (P := fun cs q => ∃ bins, q.Valid bins ∧
      q.agenda bins = cs.foldl (agendaStep (fun e => (obj e).priority)) [] ∧
      (∀ e, (q.obj e).priority = (obj e).priority) ∧ Sorted (cs.foldl (agendaStep (fun e => (obj e).priority)) []))
    (by
      rintro cs q c q' ⟨bins, hvalid, hagenda, hprio, hsorted⟩ ⟨hcall, hass⟩
      obtain ⟨q'', bins', hcall', hvalid', hagenda', hobj', -, -⟩ := call_refines hvalid hass
      cases hcall'.symm.trans hcall
      have hfun : (fun e => (q.obj e).priority) = fun e => (obj e).priority := funext hprio
      refine ⟨bins', hvalid', ?_, ?_, ?_⟩
      · rw [hagenda', hagenda, hfun, foldl_append]; rfl
      · intro e
        rw [hobj', objStep_priority, hprio]
      · rw [foldl_append]
        show Sorted (agendaStep _ _ c)
        cases c with
        | schedule e w => exact hsorted.enter _
        | deschedule e => exact hsorted.strike e
        | reschedule e w always => exact (hsorted.strike e).enter _
        | squash e => exact hsorted) ⟨[], Valid.new hobj, rfl, fun _ => rfl, List.Pairwise.nil⟩
  refine ⟨?_, hsorted, ?_, fun e => hvalid.mem_contents, fun x => enter_lifo hsorted x, fun c hc => ?_⟩
  · rw [hvalid.contents_agenda, hagenda]
  · rw [contents_eq hvalid.rep]; exact hvalid.rep.nodup
  · obtain ⟨q', -, hcall, -⟩ := call_refines hvalid hc
    exact ⟨q', hcall⟩

/-- `bin_list_refines` on three events: two with equal keys, one of them rescheduled. -/
theorem bin_list_refines_three : ∃ q : EventQueue 3,
      exec (guardFn call Asserted) (new 0 0 (fun _ => EventObj.new 0 false false false))
        [.schedule 0 5, .schedule 1 5, .schedule 2 3, .reschedule 0 5 false] = some q ∧
      q.contents = [2, 0, 1] ∧ q.contents.Nodup := by
  refine exec_observe contents [2, 0, 1] (by decide +kernel) fun q hq hc => ?_
  exact ⟨hc, (bin_list_refines (fun _ => rfl) (exec_guardFn_iff.mp hq)).2.2.1⟩

end EventQueue
end NvpSim.Sim
