/-
  The self-check of the event queue (`EventQueue::debugVerify`).

  Two nested loops walk over the bins, each from its top down, and compare every event with the one before it:
  the tick must not go back, the priority must not go down within a tick, and no event may come twice.  The
  first event is compared with what the variables are initialised with, tick 0 and PRIORITY 0.
-/
import NvpSim.Sim.QueueRefinement

namespace NvpSim.Sim

open NvpSim.Lib List

/-- The variables of `debugVerify`: `time`, `priority`, and the events in `map`. -/
structure Verify (n : Nat) where
  time : Tick
  priority : Int
  seen : List (Fin n)

/-- What the variables start with. -/
def Verify.start (n : Nat) : Verify n := ⟨0, 0, []⟩

namespace EventQueue

variable {n : Nat}

/-- The body of the loops: `none` is `return false`. -/
def verifyEvent (q : EventQueue n) (v : Verify n) (e : Fin n) : Option (Verify n) :=
  -- time goes backwards!
  if (q.obj e).when < v.time then none
  -- priority inverted!
  else if (q.obj e).when = v.time ∧ (q.obj e).priority < v.priority then none
  -- Node already seen
  else if e ∈ v.seen then none
  else some ⟨(q.obj e).when, (q.obj e).priority, e :: v.seen⟩

/-- The inner loop, along `nextInBin`. -/
def verifyBin (q : EventQueue n) : Nat → Verify n → Option (Fin n) → Option (Verify n)
  | _, v, none => some v
  | 0, _, some _ => none
  | turns + 1, v, some e => (q.verifyEvent v e).bind fun v => verifyBin q turns v (q.nextInBin e)

/-- The outer loop, along `nextBin`. -/
def verifyBins (q : EventQueue n) : Nat → Verify n → Option (Fin n) → Option (Verify n)
  | _, v, none => some v
  | 0, _, some _ => none
  | turns + 1, v, some top =>
    (q.verifyBin (n + 1) v (some top)).bind fun v => verifyBins q turns v (q.nextBin top)

def debugVerify (q : EventQueue n) : Bool := (q.verifyBins (n + 1) (.start n) q.head).isSome

variable {q : EventQueue n} {v : Verify n} {e : Fin n} {p : Option (Fin n)}

/-! ## The loops go through the events in their order -/

theorem verifyBin_eq {xs : List (Fin n)} {turns : Nat} (h : Seg q.nextInBin p xs none)
    (hturns : xs.length < turns) : q.verifyBin turns v p = xs.foldlM q.verifyEvent v := by
  induction xs generalizing turns v p with
  | nil =>
    cases (h : p = none)
    cases turns <;> rfl
  | cons x xs ih =>
    obtain ⟨turns, rfl⟩ : ∃ m, turns = m + 1 := ⟨turns - 1, by omega⟩
    cases h.1
    rw [length_cons] at hturns
    show (q.verifyEvent v x).bind _ = (q.verifyEvent v x).bind _
    congr 1
    funext v'
    exact ih h.2 (by omega)

theorem verifyBins_eq {bins : List (Bin n)} {turns : Nat} (h : q.Linked p bins none)
    (hnodup : (flat bins).Nodup) (hturns : bins.length < turns) :
    q.verifyBins turns v p = (flat bins).foldlM q.verifyEvent v := by
  induction bins generalizing turns v p with
  | nil =>
    cases (h.chain : p = none)
    cases turns <;> rfl
  | cons b bins ih =>
    obtain ⟨turns, rfl⟩ : ∃ m, turns = m + 1 := ⟨turns - 1, by omega⟩
    cases h.chain.1
    rw [length_cons] at hturns
    rw [flat_cons] at hnodup ⊢
    obtain ⟨hbin, hrest, -⟩ := nodup_append.mp hnodup
    -- the events of one bin are distinct, so there are at most `n`
    have hlen : (b.1 :: b.2).length < n + 1 := by
      have hcard := List.Nodup.length_le_card hbin
      rw [Fintype.card_fin] at hcard
      omega
    have hinner : ∀ v : Verify n, q.verifyBin (n + 1) v (some b.1) = (b.1 :: b.2).foldlM q.verifyEvent v := fun v =>
      verifyBin_eq ⟨rfl, h.stack b (mem_cons_self ..)⟩ hlen
    show (q.verifyBin (n + 1) v (some b.1)).bind _ = _
    rw [hinner, foldlM_append]
    show _ = ((b.1 :: b.2).foldlM q.verifyEvent v).bind _
    congr 1
    funext v'
    exact ih ⟨h.chain.2, (forall_mem_cons.mp h.stack).2⟩ hrest (by omega)

/-! ## Only the first event can fail -/

/-- The variables as a key. -/
def Verify.key (v : Verify n) : Tick ×ₗ Int := toLex (v.time, v.priority)

theorem verifyEvent_of_lt (h : q.key e < Verify.key v) : q.verifyEvent v e = none := by
  unfold key Verify.key at h
  rw [Prod.Lex.toLex_lt_toLex] at h
  unfold verifyEvent
  rcases h with htime | hprio
  · rw [if_pos htime]
  · have htime : ¬ (q.obj e).when < v.time := not_lt.mpr hprio.1.ge
    rw [if_neg htime, if_pos hprio]

theorem verifyEvent_of_le (h : Verify.key v ≤ q.key e) (hnew : e ∉ v.seen) :
    q.verifyEvent v e = some ⟨(q.obj e).when, (q.obj e).priority, e :: v.seen⟩ := by
  have hnot := not_lt.mpr h
  unfold key Verify.key at hnot
  rw [Prod.Lex.toLex_lt_toLex] at hnot
  unfold verifyEvent
  rw [if_neg fun htime => hnot (Or.inl htime), if_neg fun hprio => hnot (Or.inr hprio), if_neg hnew]

theorem verifyEvents_isSome {es : List (Fin n)} (hsorted : es.Pairwise fun a b => q.key a ≤ q.key b)
    (hnodup : es.Nodup) (hnew : ∀ e ∈ es, e ∉ v.seen) (hfirst : ∀ e ∈ es.head?, Verify.key v ≤ q.key e) :
    (es.foldlM q.verifyEvent v).isSome = true := by
  induction es generalizing v with
  | nil => rfl
  | cons e es ih =>
    obtain ⟨hle, hsorted'⟩ := pairwise_cons.mp hsorted
    obtain ⟨hnot, hnodup'⟩ := nodup_cons.mp hnodup
    show ((q.verifyEvent v e).bind _).isSome = true
    rw [verifyEvent_of_le (hfirst e rfl) (hnew e (mem_cons_self ..))]
    refine ih hsorted' hnodup' ?_ ?_
    · intro x hx hseen
      rcases mem_cons.mp hseen with rfl | hseen
      · exact hnot hx
      · exact hnew x (mem_cons_of_mem _ hx) hseen
    · intro x hx
      exact hle x (mem_of_mem_head? hx)

theorem valid_of_run {self : Nat} {t : Tick} {obj : Fin n → EventObj}
    (hobj : ∀ e, (obj e).scheduled = false) {cs : List (QueueCall n)}
    (h : Run (Guarded (stepOf call) Asserted) (new self t obj) cs q) : ∃ bins, q.Valid bins := by
  refine h.inv (P := fun q => ∃ bins, q.Valid bins) ?_ ⟨[], Valid.new hobj⟩
  rintro q c q' ⟨bins, hvalid⟩ ⟨hcall, hass⟩
  obtain ⟨q'', bins', hcall', hvalid', -⟩ := call_refines hvalid hass
  cases hcall'.symm.trans hcall
  exact ⟨bins', hvalid'⟩

/-- **When the self-check accepts a queue.**  A queue that was reached by calls whose asserted preconditions hold is
    accepted exactly if no event in it is due at tick 0 with a negative priority. -/
theorem debugVerify_iff {self : Nat} {t : Tick} {obj : Fin n → EventObj}
    (hobj : ∀ e, (obj e).scheduled = false) {cs : List (QueueCall n)}
    (h : Run (Guarded (stepOf call) Asserted) (new self t obj) cs q) : q.debugVerify = true ↔
      ∀ e, (q.obj e).scheduled = true → ¬ ((q.obj e).when = 0 ∧ (q.obj e).priority < 0) := by
  obtain ⟨bins, hvalid⟩ := valid_of_run hobj h
  have hloop : q.debugVerify = ((flat bins).foldlM q.verifyEvent (.start n)).isSome := by
    unfold debugVerify
    rw [verifyBins_eq hvalid.rep.linked hvalid.rep.nodup (Nat.lt_succ_of_le (length_le_of_nodup hvalid.rep.nodup))]
  have hsorted := hvalid.rep.keyed.flat_sorted
  -- below the start of the variables: tick 0 and a negative priority
  have hbelow : ∀ e, q.key e < Verify.key (.start n) ↔ (q.obj e).when = 0 ∧ (q.obj e).priority < 0 := by
    intro e
    unfold key Verify.key Verify.start
    rw [Prod.Lex.toLex_lt_toLex]
    constructor
    · rintro (hlt | hprio)
      · exact absurd hlt (Nat.not_lt_zero _)
      · exact hprio
    · exact Or.inr
  constructor
  · intro hverify e hsched hneg
    have hmem := (hvalid.scheduled_iff e).mp hsched
    rw [hloop] at hverify
    cases hes : flat bins with
    | nil =>
      rw [hes] at hmem
      cases hmem
    | cons first rest =>
      rw [hes] at hverify hmem hsorted
      -- the first event is not after `e`, so it is below the start as well
      have hfirst : q.key first ≤ q.key e := by
        rcases mem_cons.mp hmem with rfl | hmem
        · exact le_refl _
        · exact (pairwise_cons.mp hsorted).1 e hmem
      have hfail : q.verifyEvent (.start n) first = none :=
        verifyEvent_of_lt (hfirst.trans_lt ((hbelow e).mpr hneg))
      have hnone : (first :: rest).foldlM q.verifyEvent (.start n) = none := by
        show (q.verifyEvent (.start n) first).bind _ = none
        rw [hfail, Option.bind_none]
      rw [hnone] at hverify
      cases hverify
  · intro hall
    rw [hloop]
    refine verifyEvents_isSome hsorted hvalid.rep.nodup (fun e _ hseen => nomatch hseen) ?_
    intro e he
    have hmem := (hvalid.scheduled_iff e).mpr (mem_of_mem_head? he)
    exact not_lt.mp fun hlt => hall e hmem ((hbelow e).mp hlt)

/-- Two events, of the priorities 0 and -1. -/
def twoEvents (e : Fin 2) : EventObj := EventObj.new (if e = 0 then 0 else -1) false false false

/-- Both at tick 5, and one of them rescheduled to tick 0: accepted. -/
theorem debugVerify_rescheduled : ∃ q : EventQueue 2, exec (guardFn call Asserted) (new 0 0 twoEvents)
        [.schedule 0 5, .schedule 1 5, .reschedule 0 0 false] = some q ∧
      q.contents = [0, 1] ∧ q.debugVerify = true := by
  refine exec_observe (fun q => (q.contents, decide (∀ e : Fin 2, (q.obj e).scheduled = true →
          ¬ ((q.obj e).when = 0 ∧ (q.obj e).priority < 0)))) ([0, 1], true) (by decide +kernel) fun q hq hobs => ?_
  obtain ⟨hcontents, hall⟩ := Prod.mk.inj hobs
  exact ⟨hcontents, (debugVerify_iff (fun e => rfl) (exec_guardFn_iff.mp hq)).mpr (of_decide_eq_true hall)⟩

/-- **A legal queue that is rejected**: one event, scheduled at tick 0 with priority -1. -/
theorem debugVerify_rejects_negative_priority : (exec (guardFn call Asserted) (new 0 0 twoEvents) [.schedule 1 0]).map
      (fun q => (q.contents, q.debugVerify)) = some ([1], false) := by
  decide +kernel

end EventQueue
end NvpSim.Sim
