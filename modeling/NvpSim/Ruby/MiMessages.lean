/-
  The MI_example directory has a transition for every message it receives, as long as DMA accesses come ONE AT A
  TIME (`Sys.OneDma`).

  The four states in which the block is got back from its owner for a DMA access have no row for another DMA
  request.  If an access is only started when no other is outstanding, then no request waits while the directory
  is in one of them: no step but the start of an access makes another request wait (`Leads`), and the only way
  into these states takes the one that waited out of its queue.
-/
import NvpSim.Ruby.MiCoherence

namespace NvpSim.Ruby.Mi

open NvpSim.Lib List Option Function

variable {B n k : Nat} {full : Prop} {L₀ : Line B} {s s' : Sys B} {v : View} {d : Nat}

/-! ## What steps leave as it is -/

/-- A DMA request waits in a queue of its controller or of the directory. -/
def DmaNode.Waiting (c : DmaNode B) : Prop := c.mandatory ≠ [] ∨ c.requests ≠ []

/-- No further DMA request waits, and the directory is in the same state. -/
structure Sys.Below (s s' : Sys B) : Prop where
  state : s'.dir.state = s.dir.state
  waiting : ∀ d, (s'.dmas d).Waiting → (s.dmas d).Waiting

/-- Whatever a partial step leads to is below. -/
def Sys.Leads (s : Sys B) (x : Option (Sys B)) : Prop := ∀ s' ∈ x, s.Below s'

theorem Sys.below_atDma {f : DmaNode B → DmaNode B} (hf : (f (s.dmas d)).Waiting → (s.dmas d).Waiting) :
    s.Below (s.atDma d f) := by
  refine ⟨rfl, fun e => ?_⟩
  show (update s.dmas d (f (s.dmas d)) e).Waiting → _
  by_cases hed : e = d
  · rw [hed, update_self]
    exact hf
  · rw [update_of_ne hed]
    exact fun h => h

namespace Sys.Leads

theorem bind {α : Type} {o : Option α} {f : α → Option (Sys B)} (h : ∀ a, s.Leads (f a)) : s.Leads (o.bind f) := by
  intro s' hs'
  obtain ⟨a, -, ha⟩ := bind_eq_some_iff.mp hs'
  exact h a s' ha

theorem map {α : Type} {o : Option α} {f : α → Sys B} (h : ∀ a, s.Below (f a)) : s.Leads (o.map f) := by
  intro s' hs'
  obtain ⟨a, -, rfl⟩ := map_eq_some_iff.mp hs'
  exact h a

theorem pure (h : s.Below s') : s.Leads (some s') := by
  rintro _ ⟨⟩
  exact h

theorem foldlM {α : Type} {f : Sys B → α → Option (Sys B)} (h : ∀ (s : Sys B) a, s.Leads (f s a)) (as : List α) :
    ∀ s : Sys B, s.Leads (as.foldlM f s) := by
  induction as with
  | nil => exact fun s => .pure ⟨rfl, fun _ hd => hd⟩
  | cons a as ih =>
    intro s s' hs'
    rw [foldlM_cons] at hs'
    obtain ⟨s₁, h₁, h₂⟩ := bind_eq_some_iff.mp hs'
    have hfirst := h s a s₁ h₁
    have hrest := ih s₁ s' h₂
    exact ⟨hrest.state.trans hfirst.state, fun d hd => hfirst.waiting d (hrest.waiting d hd)⟩

theorem dmaRespond (s : Sys B) (id : MachineID) (msg : DmaResponseMsg B) : s.Leads (s.dmaRespond n k id msg) := by
  refine .map fun dest => ⟨rfl, fun d => ?_⟩
  show DmaNode.Waiting (if _ then _ else _) → _
  split
  · exact fun h => h
  · exact fun h => h

theorem allocateTBE (s : Sys B) (tbe : DirTBE B) : s.Leads (s.allocateTBE tbe) := by
  unfold Sys.allocateTBE
  split
  · exact nofun
  · exact .pure ⟨rfl, fun _ h => h⟩

/-- **No action of the directory makes a DMA request wait.** -/
theorem perform (port : DirPort) (s : Sys B) (act : DirAction) : s.Leads (s.perform n k port act) := by
  have hsame : ∀ d, (s.dmas d).Waiting → (s.dmas d).Waiting := fun _ h => h
  cases act with
  | cClearOwner | zRecycleRequestQueue | yRecycleDMARequestQueue | lPopMemQueue => exact .pure ⟨rfl, hsame⟩
  | fForwardRequest | invSendCacheInvalidate | wDeallocateTBE | qfQueueMemoryFetchRequest
  | qfQueueMemoryFetchRequestDMA | lQueueMemoryWBRequest => exact .map fun _ => ⟨rfl, hsame⟩
  | lSendWriteBackAck | bSendWriteBackNack | dSendData | eOwnerIsRequestor | qwQueueMemoryWBRequestPartial =>
    exact .bind fun _ => .map fun _ => ⟨rfl, hsame⟩
  | qwQueueMemoryWBRequestPartialTBE => exact .bind fun _ => .bind fun _ => .map fun _ => ⟨rfl, hsame⟩
  | vAllocateTBE | rAllocateTbeForDmaRead | vAllocateTBEFromRequestNet => exact .bind fun _ => allocateTBE s _
  | drSendDMAData | drpSendDMAData => exact .bind fun _ => .bind fun _ => .bind fun _ => dmaRespond s _ _
  | daSendDMAAck =>
    refine .bind fun tbe => .bind fun id s' hs' => ?_
    obtain ⟨s₁, h₁, rfl⟩ := map_eq_some_iff.mp hs'
    have hbelow := dmaRespond s id .ACK s₁ h₁
    exact ⟨hbelow.state, hbelow.waiting⟩
  | iPopIncomingRequestQueue =>
    cases port with
    | request i => exact .pure ⟨rfl, hsame⟩
    | dma d | mem => exact nofun
  | pPopIncomingDMARequestQueue =>
    cases port with
    | dma d =>
      refine .pure (below_atDma fun hd => hd.imp_right fun htail hnil => htail ?_)
      show (s.dmas d).requests.tail = []
      rw [hnil]
      rfl
    | request i | mem => exact nofun

theorem applyL1 (s : Sys B) (i : Nat) (r : L1Result B) : s.Leads (s.applyL1 n k i r) := by
  intro s' hs'
  have hbelow := foldlM (f := respond n k) (fun _ _ => .map fun _ => ⟨rfl, fun _ h => h⟩) r.sent _ s' hs'
  exact ⟨hbelow.state, hbelow.waiting⟩

end Sys.Leads

theorem Sys.doTransition_spec {port : DirPort} {event : DirEvent} (h : s.doTransition n k port event = some s') :
    (∃ acts, dirTransition s.dir.getState event = some (acts, s'.dir.state)) ∧
      ∀ d, (s'.dmas d).Waiting → (s.dmas d).Waiting := by
  obtain ⟨t, ht, h⟩ := bind_eq_some_iff.mp h
  obtain ⟨s₁, h₁, h⟩ := bind_eq_some_iff.mp h
  obtain ⟨dir, hset, rfl⟩ := map_eq_some_iff.mp h
  refine ⟨⟨t.1, ?_⟩, (Leads.foldlM (Leads.perform port) t.1 s s₁ h₁).waiting⟩
  unfold Directory.setState at hset
  split at hset
  · cases hset
    exact ht
  · cases hset

/-! ## One DMA access at a time -/

/-- The block is got back from its owner for a DMA access. -/
def DirState.Recalls (st : DirState) : Prop := st ∈ [.M_DRD, .M_DWR, .M_DRDI, .M_DWRI]

instance (st : DirState) : Decidable st.Recalls := inferInstanceAs (Decidable (_ ∈ _))

/-- While a DMA request waits, no other does, and the block is not got back for one. -/
def Sys.Alone (s : Sys B) : Prop :=
  ∀ d, (s.dmas d).Waiting → ¬ s.dir.state.Recalls ∧ ∀ e, (s.dmas e).Waiting → e = d

/-- What is asked of DMA accesses.  One is started only when no other is outstanding, and the line that was got
    back for a read has been stored; and the directory looks at the request when no cache that has lost the
    block has a writeback on its way, or has been told to give the block away and not seen it. -/
def Sys.OneDma (n k : Nat) (s : Sys B) : Act B → Prop
  | .dmaIssue _ _ => (∀ d < k, (s.dmas d).active = none) ∧ s.dir.state ≠ .M_DRDI
  | .dmaRequest _ => s.dir.state = .M → ∀ i < n, s.dir.owner.isElement 0 i ≠ some true →
      (∀ m ∈ (s.nodes i).requests, m.type ≠ .PUTX) ∧ ∀ m ∈ (s.nodes i).forwards, m.type ≠ .GETX
  | _ => True

instance (s : Sys B) (a : Act B) : Decidable (s.OneDma n k a) :=
  match a with
  | .dmaIssue _ _ => inferInstanceAs (Decidable ((∀ d < k, _) ∧ _))
  | .dmaRequest _ => inferInstanceAs (Decidable (_ → ∀ i < n, _ → _))
  | .issue _ _ | .mandatory _ | .replace _ | .forwarded _ | .response _ | .request _ | .memory
  | .access _ | .dmaMandatory _ | .dmaResponse _ => isTrue trivial

theorem Sys.Alone.calm (h : s.Alone) {a : Act B} (hlegal : s.Legal n k a) (hone : s.OneDma n k a) :
    s.Calm n False a := by
  cases a with
  | dmaRequest d => exact ⟨(h d (Or.inr hlegal.2)).1, hone⟩
  | dmaIssue d r => exact fun hf => hf.elim
  | _ => exact trivial

theorem Sys.Alone.below (h : s.Alone) (hb : s.Below s') : s'.Alone := by
  intro d hd
  obtain ⟨hst, hother⟩ := h d (hb.waiting d hd)
  exact ⟨by rw [hb.state]; exact hst, fun e he => hother e (hb.waiting e he)⟩

/-- The rows that lead into one of the states. -/
theorem recalls_of_transition {st st' : DirState} {event : DirEvent} {acts : List DirAction}
    (h : dirTransition st event = some (acts, st')) (hst : st'.Recalls) :
    st.Recalls ∨ st = .M ∧ (event = .DMA_READ ∨ event = .DMA_WRITE) := by
  cases st <;> cases event <;> cases h <;> revert hst <;> decide

theorem Matches.getState (h : Matches n k full L₀ s v) : s.dir.getState = s.dir.state := by
  unfold Directory.getState
  cases htbe : s.dir.tbe with
  | none => rfl
  | some tbe => exact h.atHome.tbe_state tbe htbe

/-- **A transition leaves DMA requests alone** unless it calls the block back while one waits. -/
theorem Matches.alone_transition (h : Matches n k full L₀ s v) (ha : s.Alone) {port : DirPort} {event : DirEvent}
    (hstep : s.doTransition n k port event = some s')
    (hcall : s.dir.state = .M → event = .DMA_READ ∨ event = .DMA_WRITE → ∀ d, ¬ (s'.dmas d).Waiting) : s'.Alone := by
  obtain ⟨⟨acts, htrans⟩, hwaits⟩ := Sys.doTransition_spec hstep
  rw [h.getState] at htrans
  intro d hd
  obtain ⟨hst, hother⟩ := ha d (hwaits d hd)
  refine ⟨fun hst' => ?_, fun e he => hother e (hwaits e he)⟩
  rcases recalls_of_transition htrans hst' with hold | ⟨hM, hdma⟩
  · exact hst hold
  · exact hcall hM hdma d hd

/-- A request of a cache, or an answer of the memory. -/
theorem Matches.alone_other (h : Matches n k full L₀ s v) (ha : s.Alone) {port : DirPort} {event : DirEvent}
    (hevent : event ≠ .DMA_READ ∧ event ≠ .DMA_WRITE) (hstep : s.doTransition n k port event = some s') :
    s'.Alone :=
  h.alone_transition ha hstep fun _ hdma => (hdma.elim hevent.1 hevent.2).elim

/-- **A DMA request has a transition while the block is not got back for another**, and in `M` it is taken. -/
theorem Matches.dma_defined (hn : n ≤ 32) (hk : k ≤ 32) (h : Matches n k full L₀ s v)
    (hne : (s.dmas d).requests ≠ []) (hst : ¬ s.dir.state.Recalls) : ∃ s', s.dmaRequestQueue n k d = some s' ∧
      (s.dir.state = .M → ¬ (s'.dmas d).Waiting) := by
  obtain ⟨nodes, dmas, dir, q, a, m, log⟩ := s
  obtain ⟨phase, home, serving, dma⟩ := v
  have hdma := h.dmas d
  have hat := h.atHome
  have hruled := h.ruled
  dsimp only at hdma hat hruled hne
  generalize hc : dmas d = x at hdma hne
  generalize dma d = p at hdma
  cases hdma with
  | @asked r hfine =>
    have hreq : (dmas d).requests = [r.msg d] := by rw [hc]
    have hlen : r.data.length ≤ B := le_trans (Nat.le_add_left _ _) hfine.fits
    cases hat with
    | free ho hfree =>
      cases hw : r.write with
      | true => exact ⟨_, Sys.dma_I_WRITE hw hlen hreq rfl, nofun⟩
      | false => exact ⟨_, Sys.dma_I_READ hw hreq rfl, nofun⟩
    | owned ho =>
      refine ⟨_, Sys.dma_M hn hk hreq rfl ho (hruled.bounded _ (idle_of_current hruled.owner_plain.1)) rfl, ?_⟩
      intro _ hwaits
      change DmaNode.Waiting (update dmas d (dmas d).taken d) at hwaits
      rw [update_self, hc] at hwaits
      exact hwaits.elim (absurd rfl) (absurd rfl)
    | dmaReading _ _ _ _ | dmaWriting _ _ _ | fetching _ _ | storing _ _ =>
      obtain ⟨s', -, hs', -⟩ := h.dmaLater hreq (by simp)
      exact ⟨s', hs', nofun⟩
    | recallingRead _ _ | recallingWrite _ _ | recalledRead _ _ _ | recalledWrite _ _ _ =>
      exact absurd (by simp [DirState.Recalls]) hst
  | _ => exact absurd rfl hne

/-- The DMA request that waited is the one that is taken. -/
theorem Matches.alone_dma (hn : n ≤ 32) (hk : k ≤ 32) (h : Matches n k full L₀ s v) (ha : s.Alone)
    (hne : (s.dmas d).requests ≠ []) (hstep : s.dmaRequestQueue n k d = some s') : s'.Alone := by
  obtain ⟨hst, hother⟩ := ha d (Or.inr hne)
  obtain ⟨s₁, hs₁, htaken⟩ := h.dma_defined hn hk hne hst
  cases hstep.symm.trans hs₁
  obtain ⟨msg, -, hdo⟩ := bind_eq_some_iff.mp hstep
  have hwaits := (Sys.doTransition_spec hdo).2
  refine h.alone_transition ha hdo fun hM _ e he => ?_
  obtain rfl := hother e (hwaits e he)
  exact htaken hM he

theorem AtHome.recalls_read {L m : Line B} {home : Home} {dir : Directory B} {q : List MemPkt}
    {a : List (MemoryMsg B)} (h : AtHome n k full L home none dir q a m) (hst : dir.state.Recalls) :
    dir.state = .M_DRDI := by
  cases h with
  | recalledRead _ _ _ => rfl
  | _ => simp [DirState.Recalls] at hst

/-- **Nothing is outstanding when an access is started.** -/
theorem Matches.alone_issue (h : Matches n k full L₀ s v) (hidle : ∀ e < k, (s.dmas e).active = none)
    (hst : s.dir.state ≠ .M_DRDI) : ¬ s.dir.state.Recalls ∧ ∀ e, ¬ (s.dmas e).Waiting := by
  have hready : ∀ e, v.dma e = .ready := by
    intro e
    by_contra hne
    have hactive := hidle e (h.bounded e hne)
    have hdma := h.dmas e
    generalize s.dmas e = x at hdma hactive
    generalize v.dma e = p at hdma hne
    cases hdma with
    | ready => exact hne rfl
    | _ => cases hactive
  constructor
  · intro hrec
    have hnone : v.serving = none := by
      rw [eq_none_iff_forall_not_mem]
      intro dr hdr
      cases (hready dr.1).symm.trans ((h.served dr.1 dr.2).mpr hdr)
    exact hst ((hnone ▸ h.atHome).recalls_read hrec)
  · intro e
    have hdma := h.dmas e
    rw [hready e] at hdma
    generalize s.dmas e = x at hdma
    cases hdma
    exact fun hwaits => hwaits.elim (absurd rfl) (absurd rfl)

/-- **Every step keeps DMA requests alone.** -/
theorem Matches.alone_step (hn : n ≤ 32) (hk : k ≤ 32) (h : Matches n k full L₀ s v) (ha : s.Alone) {a : Act B}
    (hlegal : s.Legal n k a) (hone : s.OneDma n k a) (hstep : s.step n k a = some s') : s'.Alone := by
  cases a with
  | issue i access =>
    cases hstep
    exact ha.below ⟨rfl, fun _ hd => hd⟩
  | mandatory i | replace i | forwarded i | response i =>
    obtain ⟨r, -, hstep⟩ := bind_eq_some_iff.mp hstep
    exact ha.below (Sys.Leads.applyL1 s i r s' hstep)
  | request i =>
    obtain ⟨msg, -, hstep⟩ := bind_eq_some_iff.mp hstep
    split at hstep
    · exact h.alone_other ha (by decide) hstep
    · exact h.alone_other ha (by decide) hstep
    · obtain ⟨owns, -, hstep⟩ := bind_eq_some_iff.mp hstep
      exact h.alone_other ha (by cases owns <;> decide) hstep
    · cases hstep
  | memory =>
    obtain ⟨msg, -, hstep⟩ := bind_eq_some_iff.mp hstep
    split at hstep
    · exact h.alone_other ha (by decide) hstep
    · exact h.alone_other ha (by decide) hstep
  | access junk =>
    change s.access junk = some s' at hstep
    unfold Sys.access at hstep
    split at hstep
    · cases hstep
    all_goals
      cases hstep
      exact ha.below ⟨rfl, fun _ hd => hd⟩
  | dmaIssue d r =>
    obtain ⟨hst, hnone⟩ := h.alone_issue hone.1 hone.2
    obtain ⟨c, -, rfl⟩ := map_eq_some_iff.mp hstep
    have honly : ∀ e, (update s.dmas d c e).Waiting → e = d := by
      intro e he
      by_contra hed
      rw [update_of_ne hed] at he
      exact hnone e he
    exact fun e he => ⟨hst, fun e' he' => (honly e' he').trans (honly e he).symm⟩
  | dmaMandatory d =>
    obtain ⟨c, -, rfl⟩ := map_eq_some_iff.mp hstep
    exact ha.below (Sys.below_atDma fun _ => Or.inl hlegal.2)
  | dmaRequest d => exact h.alone_dma hn hk ha hlegal.2 hstep
  | dmaResponse d =>
    obtain ⟨c, hc, rfl⟩ := map_eq_some_iff.mp hstep
    refine ha.below (Sys.below_atDma ?_)
    unfold DmaNode.dmaResponseQueue at hc
    split at hc
    · split at hc
      · cases hc
      · cases hc
        exact fun hd => hd
    · cases hc
      exact fun hd => hd
    · cases hc

/-! ## Whole runs -/

theorem alone_of_run (hn : n ≤ 32) (hk : k ≤ 32) {as : List (Act B)}
    (hrun : Run (Guarded (stepOf (Sys.step n k)) fun s a => s.Legal n k a ∧ s.OneDma n k a)
      (Sys.init n k L₀) as s) : (∃ v, Matches n k False L₀ s v) ∧ s.Alone := by
  refine hrun.inv (P := fun s => (∃ v, Matches n k False L₀ s v) ∧ s.Alone) ?_
    ⟨⟨_, matches_init False L₀⟩, fun d hd => hd.elim (absurd rfl) (absurd rfl)⟩
  rintro s a s' ⟨⟨v, hv⟩, ha⟩ ⟨hstep, hlegal, hone⟩
  obtain ⟨s'', v', hstep', hv'⟩ := hv.step hn hk hlegal (ha.calm hlegal hone)
  cases hstep.symm.trans hstep'
  exact ⟨⟨v', hv'⟩, hv.alone_step hn hk ha hlegal hone hstep⟩

/-- **The directory handles every message, as long as DMA accesses come one at a time.**  In every state of such a
    run every request of a cache, every DMA request and every answer of the memory at the head of a queue has
    its transition. -/
theorem directory_handles_messages (hn : n ≤ 32) (hk : k ≤ 32) {as : List (Act B)}
    (hrun : Run (Guarded (stepOf (Sys.step n k)) fun s a => s.Legal n k a ∧ s.OneDma n k a)
      (Sys.init n k L₀) as s) : (∀ i, s.Legal n k (.request i) → s.step n k (.request i) ≠ none) ∧
      (∀ d, s.Legal n k (.dmaRequest d) → s.step n k (.dmaRequest d) ≠ none) ∧
      (s.Legal n k .memory → s.step n k .memory ≠ none) := by
  obtain ⟨⟨v, hv⟩, ha⟩ := alone_of_run hn hk hrun
  refine ⟨?_, ?_, ?_⟩
  · intro i hlegal
    exact (hv.request hn hk hlegal.1 hlegal.2).ne_none
  · intro d hlegal
    obtain ⟨s', hs', -⟩ := hv.dma_defined hn hk hlegal.2 (ha d (Or.inr hlegal.2)).1
    exact ne_none_iff_exists'.mpr ⟨s', hs'⟩
  · intro hlegal
    exact (hv.memory hn hk hlegal).ne_none

/-- A cache writes the line, a DMA controller writes to it, and the cache gives it back. -/
def recallRun : List (Act 2) :=
  [.issue 0 (.store 0 [5]), .mandatory 0, .request 0, .access .zero, .memory, .response 0,
    .dmaIssue 0 ⟨true, 1, [7]⟩, .dmaMandatory 0, .dmaRequest 0, .forwarded 0]

/-- The writeback of the owner is looked at while the block is got back. -/
theorem directory_handles_recall : ∃ s : Sys 2, s.Legal 3 2 (.request 0) ∧ s.dir.state = .M_DWR ∧
      s.step 3 2 (.request 0) ≠ none := by
  have hexec : ((exec (guardFn (Sys.step 3 2) fun s a => s.Legal 3 2 a ∧ s.OneDma 3 2 a)
      (Sys.init 3 2 (.zero : Line 2)) recallRun).map fun s =>
        (decide (s.Legal 3 2 (.request 0)), s.dir.state)) = some (true, .M_DWR) := by
    decide +kernel
  obtain ⟨s, hs, hobs⟩ := map_eq_some_iff.mp hexec
  obtain ⟨hlegal, hstate⟩ := Prod.mk.inj hobs
  exact ⟨s, of_decide_eq_true hlegal, hstate,
    (directory_handles_messages (by decide) (by decide) (exec_guardFn_iff.mp hs)).1 0 (of_decide_eq_true hlegal)⟩

/-- The block is given back for a DMA write, and there is no transition for a second DMA request, nor for the
    writeback of a cache that owned the block before. -/
theorem directory_misses_messages : ((exec (guardFn (Sys.step 3 2) (Sys.Legal 3 2)) (Sys.init 3 2 (.zero : Line 2))
      [.issue 0 (.store 0 [5]), .mandatory 0, .request 0, .access .zero, .memory, .response 0,
        .dmaIssue 0 ⟨true, 1, [7]⟩, .dmaMandatory 0, .dmaRequest 0,
        .dmaIssue 1 ⟨true, 1, [7]⟩, .dmaMandatory 1]).map fun s =>
          (decide (s.Legal 3 2 (.dmaRequest 1)), (s.step 3 2 (.dmaRequest 1)).isNone)) =
        some (true, true) ∧
    ((exec (guardFn (Sys.step 3 2) (Sys.Legal 3 2)) (Sys.init 3 2 (.zero : Line 2))
      [.issue 0 (.store 0 [5]), .mandatory 0, .request 0, .access .zero, .memory, .response 0,
        .replace 0, .issue 1 (.load 0 2), .mandatory 1, .request 1,
        .dmaIssue 0 ⟨true, 1, [7]⟩, .dmaMandatory 0, .dmaRequest 0]).map fun s =>
          (decide (s.Legal 3 2 (.request 0)), (s.step 3 2 (.request 0)).isNone)) =
        some (true, true) := by
  constructor <;> decide +kernel

end NvpSim.Ruby.Mi
