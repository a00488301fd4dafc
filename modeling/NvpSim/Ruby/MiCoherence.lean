/-
  What the MI_example protocol guarantees.

  WITHOUT DMA, it is coherent with up to 32 caches, and with no more: the set of the 33rd cache is behind the
  array of the `NetDest` that keeps the owner.  One cache at most is in `M`, the owner holds the block or will
  get it, by induction along the chain of caches that were told to give it on, and every load returns what was
  last stored.

  WITH DMA, a write changes exactly its own bytes if and only if it is of a whole line.
-/
import NvpSim.Ruby.MiDma

namespace NvpSim.Ruby.Mi

open NvpSim.Lib List Option Function

variable {B n k : Nat} {full : Prop} {L₀ : Line B} {s : Sys B} {v : View} {i : Nat}

/-! ## Runs -/

/-- **A whole run keeps the invariant.** -/
theorem matches_of_run (hn : n ≤ 32) (hk : k ≤ 32) {as : List (Act B)}
    (hrun : Run (Guarded (stepOf (Sys.step n k)) fun s a => s.Legal n k a ∧ s.Calm n full a)
      (Sys.init n k L₀) as s) : ∃ v, Matches n k full L₀ s v := by
  refine hrun.inv (P := fun s => ∃ v, Matches n k full L₀ s v) ?_ ⟨_, matches_init full L₀⟩
  rintro s a s' ⟨v, hv⟩ ⟨hstep, hlegal, hcalm⟩
  obtain ⟨s'', v', hstep', hv'⟩ := hv.step hn hk hlegal hcalm
  cases hstep.symm.trans hstep'
  exact ⟨v', hv'⟩

theorem calm_of_legal {a : Act B} (h : s.Legal n 0 a) : s.Calm n full a := by
  cases a with
  | dmaRequest d | dmaIssue d r => exact absurd h.1 (Nat.not_lt_zero d)
  | _ => exact trivial

/-- Without DMA every run is calm. -/
theorem matches_of_legal (hn : n ≤ 32) {as : List (Act B)}
    (hrun : Run (Guarded (stepOf (Sys.step n 0)) (Sys.Legal n 0)) (Sys.init n 0 L₀) as s) :
    ∃ v, Matches n 0 True L₀ s v :=
  matches_of_run hn (Nat.zero_le 32) (hrun.mono fun _ _ _ h => ⟨h.1, h.2, calm_of_legal h.2⟩)

/-! ## Coherence -/

/-- A cache that holds the block, or will receive it: it has it in `M`, or in `MI` while its writeback is on its way;
    it is on its way from a cache or from the memory; or a cache that holds it or will receive it has been told
    to give it to this one. -/
inductive Sys.Gets (s : Sys B) : Nat → Prop where
  | holds {i : Nat} (h : (s.nodes i).getState = .M ∨ (s.nodes i).getState = .MI) : Gets s i
  | sent {i : Nat} {m : ResponseMsg B} (h : m ∈ (s.nodes i).responses) (ht : m.type = .DATA) : Gets s i
  | asked {i : Nat} (h : .read (.l1Cache i) ∈ s.toMemory) : Gets s i
  | fetched {i : Nat} {m : MemoryMsg B} (h : m ∈ s.fromMemory) (ht : m.type = .MEMORY_READ)
      (hi : m.originalRequestor = .l1Cache i) : Gets s i
  | told {i j : Nat} {m : RequestMsg B} (hj : Gets s j) (h : m ∈ (s.nodes j).forwards)
      (ht : m.type = .GETX) (hi : m.requestor = .l1Cache i) : Gets s i

/-- A coherent state. -/
structure Sys.Coherent (n : Nat) (L₀ : Line B) (s : Sys B) : Prop where
  single : ∀ i < n, ∀ j < n, (s.nodes i).getState = .M → (s.nodes j).getState = .M → i = j
  owner : ∀ i < n, s.dir.owner.isElement 0 i = some true → s.Gets i
  loads : AllRight L₀ s.log

theorem Described.token_of_M {L : Line B} {p : Phase} {x : Node B} (h : Described full L i p x)
    (hM : x.getState = .M) : p.role.token = true := by
  cases h with
  | @idle entry table queue hentry _ =>
    cases entry with
    | none => cases hM
    | some e => cases (hentry e rfl).symm.trans hM
  | holding _ _ => exact Described.mark_token _ _
  | asking hm | fetching hm | waiting hm | arriving hm _ => cases hm <;> cases hM
  | _ => cases hM

theorem Matches.gets_of_token (h : Matches n k full L₀ s v) (ht : (v.phase i).role.token = true) : s.Gets i := by
  have hnode := h.nodes i
  generalize hc : s.nodes i = x at hnode
  generalize hp : v.phase i = p at hnode ht
  cases hnode with
  | @arriving told st d d' w access sender _ _ =>
    refine .sent (m := ⟨.DATA, sender, w⟩) ?_ rfl
    rw [hc]
    exact mem_singleton_self _
  | holding _ _ => exact .holds (Or.inl (by rw [hc]; rfl))
  | evicting _ _ | refused _ _ => exact .holds (Or.inr (by rw [hc]; rfl))
  | waiting _ => cases (Described.mark_token _ _).symm.trans ht
  | _ => cases ht

theorem Matches.gets_of_fetches (h : Matches n k full L₀ s v) (hf : (v.phase i).role.fetches = true) : s.Gets i := by
  have hhome := (h.ruled.fetches i).mp hf
  obtain ⟨phase, home, serving, dma⟩ := v
  have hat := h.atHome
  generalize s.dir = dir at hat
  generalize hq : s.toMemory = q at hat
  generalize ha : s.fromMemory = a at hat
  generalize s.memory = m at hat
  cases hat with
  | fetching _ hread =>
    cases hhome
    cases hread with
    | asked _ =>
      refine .asked ?_
      rw [hq]
      exact mem_singleton_self _
    | @done _ w _ =>
      refine .fetched (m := ⟨.MEMORY_READ, .l1Cache i, w⟩) ?_ rfl rfl
      rw [ha]
      exact mem_singleton_self _
  | _ => cases hhome

theorem Described.giver {L : Line B} {p : Phase} {x : Node B} {c : Nat} (h : Described full L i p x)
    (hg : p.role.gives = some c) : (∃ m ∈ x.forwards, m.type = .GETX ∧ m.requestor = .l1Cache c) ∧
      (p.role.token = true ∨ p.role.waits = true) := by
  cases h with
  | refused _ _ =>
    cases hg
    exact ⟨⟨_, mem_cons_self .., rfl, rfl⟩, Or.inl rfl⟩
  | @waiting told _ _ _ _ _ =>
    cases told <;> cases hg
    exact ⟨⟨_, mem_singleton_self _, rfl, rfl⟩, Or.inr rfl⟩
  | @arriving told _ _ _ _ _ _ _ _ | @holding told _ _ _ _ _ | @evicting told _ _ _ _ _ =>
    cases told <;> cases hg
    exact ⟨⟨_, mem_singleton_self _, rfl, rfl⟩, Or.inl rfl⟩
  | _ => cases hg

/-- **Who waits gets the block**: by induction along the chain of those that were told to give it on. -/
theorem Matches.gets_of_waits (h : Matches n k full L₀ s v) : ∀ i, (v.phase i).role.waits = true → s.Gets i := by
  obtain ⟨rank, hrank⟩ := h.ruled.rank
  have hchain : ∀ r i, rank i = r → (v.phase i).role.waits = true → s.Gets i := by
    intro r
    induction r using Nat.strongRecOn with
    | ind r ih =>
      intro i hr hw
      obtain ⟨j, hg⟩ := h.ruled.waits i hw
      obtain ⟨⟨m, hm, htype, hreq⟩, hj⟩ := (h.nodes j).giver hg
      refine .told ?_ hm htype hreq
      rcases hj with htok | hwait
      · exact h.gets_of_token htok
      · exact ih (rank j) (hr ▸ hrank j i hg) j rfl hwait
  intro i
  exact hchain (rank i) i rfl

theorem Phase.current_cases {p : Phase} (h : p.role.current = true) :
    p.role.token = true ∨ p.role.waits = true ∨ p.role.fetches = true := by
  cases p with
  | waiting told => exact Or.inr (Or.inl (by cases told <;> rfl))
  | arriving told | holding told | evicting told => exact Or.inl (by cases told <;> rfl)
  | fetching => exact Or.inr (Or.inr rfl)
  | _ => cases h

theorem Matches.coherent (hn : n ≤ 32) (hk : k ≤ 32) (hfull : full) (h : Matches n k full L₀ s v) :
    s.Coherent n L₀ where
  single := by
    intro i _ j _ hi hj
    exact h.ruled.token i j ((h.nodes i).token_of_M hi) ((h.nodes j).token_of_M hj)
  owner := by
    intro i hi howns
    rw [h.atHome.owner.isElement hn hk hi] at howns
    have howner : v.home.owner = some i := of_decide_eq_true (Option.some.inj howns)
    rcases Phase.current_cases ((h.ruled.current i).mpr howner) with htok | hwait | hfetch
    · exact h.gets_of_token htok
    · exact h.gets_of_waits i hwait
    · exact h.gets_of_fetches hfetch
  loads := h.log hfull

/-- The protocol without DMA is coherent with `n` caches: in every run every state is, and whatever can happen has
    its transition. -/
def Coherent (B n : Nat) : Prop :=
  ∀ (L₀ : Line B) (as : List (Act B)) (s : Sys B),
    Run (Guarded (stepOf (Sys.step n 0)) (Sys.Legal n 0)) (Sys.init n 0 L₀) as s →
      s.Coherent n L₀ ∧ ∀ a, s.Legal n 0 a → s.step n 0 a ≠ none

theorem coherent_of_le (B : Nat) (hn : n ≤ 32) : Coherent B n := by
  intro L₀ as s hrun
  obtain ⟨v, hv⟩ := matches_of_legal hn hrun
  refine ⟨hv.coherent hn (Nat.zero_le 32) trivial, ?_⟩
  intro a hlegal
  exact (hv.step hn (Nat.zero_le 32) hlegal (calm_of_legal hlegal)).ne_none

/-- A cache that has asked for the block. -/
def askingNode (B i : Nat) : Node B :=
  ⟨some ⟨.IS, .zero⟩, some ⟨.IS, .zero⟩, some (.load 0 0), [], [⟨.GETX, .l1Cache i, .zero⟩], [], []⟩

theorem add_owner_none (hn : 33 ≤ n) : (NetDest.new (counts n 0)).clear.add 0 (n - 1) = none := by
  show (if n - 1 < n then ((RubySet.ofSize n).clear.add (n - 1)).map _ else none) = none
  have hclear : (RubySet.ofSize n).clear = RubySet.ofSize n := by
    simp [RubySet.clear, RubySet.ofSize, RubySet.fill]
  rw [if_pos (by omega), hclear, add_last_none hn, map_none]

theorem Sys.request_I_GETX_none {owner : NetDest} {w : Line B}
    (hreq : (s.nodes i).requests = [⟨.GETX, .l1Cache i, w⟩]) (hdir : s.dir = ⟨.I, owner, none⟩)
    (hadd : owner.clear.add 0 i = none) : s.requestQueue n k i = none := by
  simp [requestQueue, peekRequest, doTransition, dirTransition, Directory.getState, perform, hreq, hdir,
    hadd, MachineID.machine, queueMemory]

theorem not_coherent_of_lt (B : Nat) (hn : 33 ≤ n) : ¬ Coherent B n := by
  intro hcoh
  -- the last cache loads nothing at all, and its request has no transition
  have hlt : n - 1 < n := by omega
  let s₀ : Sys B := Sys.init n 0 .zero
  let s₁ : Sys B := s₀.atNode (n - 1) fun c =>
    { c with table := some (.load 0 0), mandatory := c.mandatory ++ [.load 0 0] }
  let s₂ : Sys B := { s₁ with nodes := update s₁.nodes (n - 1) (askingNode B (n - 1)) }
  have hself : s₁.nodes (n - 1) = ⟨none, none, some (.load 0 0), [.load 0 0], [], [], []⟩ :=
    update_self ..
  have hrun : Run (Guarded (stepOf (Sys.step n 0)) (Sys.Legal n 0)) s₀
      [.issue (n - 1) (.load 0 0), .mandatory (n - 1)] s₂ := by
    have hissue : Guarded (stepOf (Sys.step n 0)) (Sys.Legal n 0) s₀ (.issue (n - 1) (.load 0 0)) s₁ :=
      ⟨rfl, hlt, rfl, Nat.zero_le B⟩
    refine Run.cons hissue (Run.cons ⟨?_, hlt, ?_⟩ .nil)
    · show ((s₁.nodes (n - 1)).mandatoryQueue (n - 1)).bind _ = _
      rw [hself]
      rfl
    · rw [hself]
      exact cons_ne_nil _ _
  have hnode : s₂.nodes (n - 1) = askingNode B (n - 1) := update_self ..
  refine (hcoh .zero _ s₂ hrun).2 (.request (n - 1)) ⟨hlt, ?_⟩ ?_
  · rw [hnode]
    exact cons_ne_nil _ _
  · exact Sys.request_I_GETX_none (by rw [hnode]; rfl) rfl (add_owner_none hn)

/-- **The protocol without DMA is coherent exactly with up to 32 caches.** -/
theorem coherent_iff (B n : Nat) : Coherent B n ↔ n ≤ 32 := by
  constructor
  · intro hcoh
    by_contra hn
    exact not_coherent_of_lt B (by omega) hcoh
  · exact coherent_of_le B

/-- With 33 caches: the last of them asks for the block, and the directory has no way to make it the owner. -/
theorem cache_33_not_owner : ((exec (guardFn (Sys.step 33 0) (Sys.Legal 33 0)) (Sys.init 33 0 (.zero : Line 1))
      [.issue 32 (.load 0 1), .mandatory 32]).map fun s =>
        (decide (s.Legal 33 0 (.request 32)), (s.step 33 0 (.request 32)).isNone)) =
      some (true, true) := by
  decide +kernel

/-- All messages are stalled: requests by the directory, forwards by caches that miss. -/
def Sys.Stuck (s : Sys B) : Prop :=
  s.toMemory = [] ∧ s.fromMemory = [] ∧ ∀ i, (s.nodes i).responses = [] ∧
    (s.dir.state ∉ [.IM, .MI] → (s.nodes i).requests = []) ∧
    ((s.nodes i).getState ∉ [.IS, .IM] → (s.nodes i).forwards = [])

/-- In a stuck state who is to get the block has it: by induction along the chain of those that were told to give it
    on, where one that holds it does not stall. -/
theorem Sys.Stuck.holds (h : s.Stuck) (hg : s.Gets i) : (s.nodes i).getState = .M ∨ (s.nodes i).getState = .MI := by
  obtain ⟨hto, hfrom, hall⟩ := h
  induction hg with
  | holds h => exact h
  | @sent i m hm _ =>
    rw [(hall i).1] at hm
    cases hm
  | asked hq =>
    rw [hto] at hq
    cases hq
  | fetched hm _ _ =>
    rw [hfrom] at hm
    cases hm
  | @told i j m _ hm _ _ ih =>
    have hnone : (s.nodes j).forwards = [] := (hall j).2.2 (by rcases ih with h | h <;> rw [h] <;> decide)
    rw [hnone] at hm
    cases hm

/-- **No deadlock**: without DMA, no state is stuck with a cache in a transaction. -/
theorem not_stuck (hn : n ≤ 32) {as : List (Act B)}
    (hrun : Run (Guarded (stepOf (Sys.step n 0)) (Sys.Legal n 0)) (Sys.init n 0 L₀) as s)
    (hi : (s.nodes i).getState ∉ [.I, .M]) : ¬ s.Stuck := by
  intro hstuck
  obtain ⟨v, hv⟩ := matches_of_legal hn hrun
  obtain ⟨hhome, hdir⟩ := AtHome.quiet (hstuck.1 ▸ hstuck.2.1 ▸ hv.atHome)
  have hgets := hstuck.holds (i := i)
  have hall := hstuck.2.2 i
  have hnode := hv.nodes i
  generalize s.nodes i = x at hnode hall hi hgets
  generalize hp : v.phase i = p at hnode
  cases hnode with
  | @idle entry table queue hentry _ =>
    cases entry with
    | none => exact hi (by simp [Node.getState])
    | some e => exact hi (by simp [Node.getState, hentry e rfl])
  | fetching hm =>
    -- the memory has nothing for it
    have hholds := hgets (hv.gets_of_fetches (by rw [hp]; rfl))
    cases hm <;> simp [Node.getState] at hholds
  | @waiting told _ _ _ _ hm =>
    -- nobody who is told to give it the block stalls
    have hholds := hgets (hv.gets_of_waits i (by rw [hp]; cases told <;> rfl))
    cases hm <;> simp [Node.getState] at hholds
  | written _ => cases hhome.symm.trans ((hv.ruled.writes i).mp (by rw [hp]; rfl))
  | _ => simp [hdir, Node.getState, Told.msgs] at hall hi

/-- Two caches: the first stalls a forward while its data is on its way. -/
theorem not_stuck_stalled : ∃ s : Sys 1, (s.nodes 0).getState = .IS ∧ (s.nodes 0).forwards.length = 1 ∧ ¬ s.Stuck := by
  have hexec : (exec (guardFn (Sys.step 2 0) (Sys.Legal 2 0)) (Sys.init 2 0 (.zero : Line 1))
      [.issue 0 (.load 0 1), .mandatory 0, .request 0, .access .zero, .memory,
        .issue 1 (.load 0 1), .mandatory 1, .request 1]).map (fun s =>
          ((s.nodes 0).getState, (s.nodes 0).forwards.length)) = some (.IS, 1) := by
    decide +kernel
  obtain ⟨s, hs, hobs⟩ := map_eq_some_iff.mp hexec
  obtain ⟨hstate, hlen⟩ := Prod.mk.inj hobs
  exact ⟨s, hstate, hlen, not_stuck (by decide) (exec_guardFn_iff.mp hs) (i := 0) (by rw [hstate]; decide)⟩

/-! ## DMA writes -/

instance (s : Sys B) (a : Act B) : Decidable (s.Calm n False a) :=
  match a with
  | .dmaRequest _ => inferInstanceAs (Decidable (s.Settled n))
  | .dmaIssue _ _ => isTrue fun h => h.elim
  | .issue _ _ | .mandatory _ | .replace _ | .forwarded _ | .response _ | .request _ | .memory
  | .access _ | .dmaMandatory _ | .dmaResponse _ => isTrue trivial

/-- DMA writes have this offset and this length. -/
def ShapeIs (offset len : Nat) : Act B → Prop
  | .dmaIssue _ r => r.write = true → r.offset = offset ∧ r.data.length = len
  | _ => True

/-- A DMA write with this offset and this length changes exactly its own bytes.  When a controller has been
    acknowledged and the block is at home, its write is the one that has been completed, and the memory is the
    latest value of the line. -/
def WritesExactly (B n k offset len : Nat) : Prop :=
  ∀ (L₀ : Line B) (as : List (Act B)) (s : Sys B), Run (Guarded (stepOf (Sys.step n k)) fun s a =>
      s.Legal n k a ∧ s.Calm n False a ∧ ShapeIs offset len a) (Sys.init n k L₀) as s →
    ∀ d r, .ACK ∈ (s.dmas d).responses → (s.dmas d).active = some r → s.dir.state = .I →
      .dmaWritten d r.offset r.data ∈ s.log ∧ s.memory = latest L₀ s.log

theorem Matches.memory_latest (h : Matches n k True L₀ s v) (hst : s.dir.state = .I) :
    s.memory = latest L₀ s.log := by
  obtain ⟨phase, home, serving, dma⟩ := v
  have hat := h.atHome
  generalize s.dir = dir at hat hst
  generalize s.toMemory = q at hat
  generalize s.fromMemory = a at hat
  cases hat with
  | free _ hfree => exact hfree trivial
  | _ => cases hst

theorem Matches.acked_written (h : Matches n k full L₀ s v) {d : Nat} {r : DmaRequest}
    (hack : .ACK ∈ (s.dmas d).responses) (hactive : (s.dmas d).active = some r) :
    .dmaWritten d r.offset r.data ∈ s.log := by
  have hdma := h.dmas d
  generalize s.dmas d = x at hdma hack hactive
  generalize v.dma d = p at hdma
  cases hdma with
  | answeredAck _ _ hlog =>
    cases hactive
    exact hlog
  | answeredData _ _ => cases mem_singleton.mp hack
  | _ => cases hack

theorem writesExactly_whole (hn : n ≤ 32) (hk : k ≤ 32) (B offset : Nat) : WritesExactly B n k offset B := by
  intro L₀ as s hrun d r hack hactive hst
  have hcalm : Run (Guarded (stepOf (Sys.step n k)) fun s a => s.Legal n k a ∧ s.Calm n True a)
      (Sys.init n k L₀) as s := by
    refine hrun.mono ?_
    rintro s a s' ⟨hstep, hlegal, hcalm, hshape⟩
    refine ⟨hstep, hlegal, ?_⟩
    cases a with
    | dmaIssue d r => exact fun _ hw => (hshape hw).2
    | _ => exact hcalm
  obtain ⟨v, hv⟩ := matches_of_run hn hk hcalm
  exact ⟨hv.acked_written hack hactive, hv.memory_latest hst⟩

/-! ### A write of less than a line -/

/-- A write of zeros. -/
def zeros (offset len : Nat) : DmaRequest := ⟨true, offset, replicate len 0⟩

theorem zeros_setData (offset len : Nat) : (Line.zero : Line B).setData (zeros offset len).data offset = .zero := by
  funext j
  unfold Line.setData
  split
  · rw [getD_eq_getElem?_getD, zeros, getElem?_replicate]
    split <;> rfl
  · rfl

theorem Sys.atDma_dmas (s : Sys B) (d : Nat) (f : DmaNode B → DmaNode B) :
    (s.atDma d f).dmas d = f (s.dmas d) := update_self ..

/-- Nothing has happened but to the first DMA controller. -/
def Sys.withDma (n k : Nat) (x : DmaNode B) : Sys B :=
  { Sys.init n k .zero with dmas := update (fun _ => .empty) 0 x }

theorem Sys.withDma_dmas (n k : Nat) (x : DmaNode B) : (Sys.withDma n k x).dmas 0 = x := by
  show update (fun _ => DmaNode.empty) 0 x 0 = x
  rw [update_self]

theorem Sys.withDma_atDma (x : DmaNode B) (f : DmaNode B → DmaNode B) :
    (Sys.withDma n k x).atDma 0 f = Sys.withDma n k (f x) := by
  unfold atDma
  rw [withDma_dmas]
  unfold withDma
  rw [update_idem]

/-- The data of a write is on its way to the memory. -/
def Sys.sentWrite (n k : Nat) (r : DmaRequest) : Sys B :=
  { Sys.withDma n k ⟨r.busy, some r, [], [], []⟩ with
    dir := ⟨.ID_W, .new (counts n k), some ⟨.ID_W, r.offset, r.line, r.data.length, some (.dma 0)⟩⟩
    toMemory := [.write (.dma 0) ((r.line : Line B).getData 0 r.data.length)] }

theorem run_sentWrite {offset len : Nat} (hk : 0 < k) (hfits : offset + len ≤ B) :
    Run (Guarded (stepOf (Sys.step n k)) fun s a =>
        s.Legal n k a ∧ s.Calm n False a ∧ ShapeIs offset len a) (Sys.init n k (.zero : Line B))
      [.dmaIssue 0 (zeros offset len), .dmaMandatory 0, .dmaRequest 0]
      (Sys.sentWrite n k (zeros offset len)) := by
  have hlen : (zeros offset len).data.length = len := length_replicate
  generalize hr : zeros offset len = r at hlen
  have hw : r.write = true := by rw [← hr]; rfl
  have hoff : r.offset = offset := by rw [← hr]; rfl
  have hbytes : r.offset + r.data.length ≤ B := by rw [hlen, hoff]; exact hfits
  have hmsg : r.busy = .BUSY_WR ∧ (r.msg 0 : DmaRequestMsg B).write = true := by
    constructor
    · rw [DmaRequest.busy, if_pos hw]
    · exact hw
  have h₁ : Sys.step n k (Sys.init n k (.zero : Line B)) (.dmaIssue 0 r) =
      some (Sys.withDma n k ⟨.READY, some r, [r.msg 0], [], []⟩) := by
    show Option.map _ (if r.offset + r.data.length ≤ B then _ else none) = _
    rw [if_pos hbytes]
    rfl
  have h₂ : Sys.step n k (Sys.withDma n k ⟨.READY, some r, [r.msg 0], [], []⟩ : Sys B)
      (.dmaMandatory 0) = some (Sys.withDma n k ⟨r.busy, some r, [], [r.msg 0], []⟩) := by
    rw [Sys.step, Sys.withDma_dmas, DmaNode.dmaRequestQueue, map_some, Sys.withDma_atDma, hmsg.1]
    rw [hmsg.2]
    rfl
  have h₃ : Sys.step n k (Sys.withDma n k ⟨r.busy, some r, [], [r.msg 0], []⟩ : Sys B)
      (.dmaRequest 0) = some (Sys.sentWrite n k r) := by
    have hstep := @Sys.dma_I_WRITE B n k (Sys.withDma n k ⟨r.busy, some r, [], [r.msg 0], []⟩) 0
      (.new (counts n k)) r hw (by omega) (by rw [Sys.withDma_dmas]) rfl
    rw [Sys.withDma_atDma] at hstep
    exact hstep
  refine Run.cons ⟨h₁, ⟨hk, rfl, hbytes⟩, fun hf => hf.elim, fun _ => ⟨hoff, hlen⟩⟩
    (Run.cons ⟨h₂, ⟨hk, ?_⟩, trivial, trivial⟩ (Run.cons ⟨h₃, ⟨hk, ?_⟩, ⟨?_, ?_⟩, trivial⟩ .nil))
  · rw [Sys.withDma_dmas]
    exact cons_ne_nil _ _
  · rw [Sys.withDma_dmas]
    exact cons_ne_nil _ _
  · show DirState.I ∉ _
    decide
  · intro hM
    cases hM

/-- **A write of less than a line leaves behind its data whatever lies in the buffer.** -/
theorem not_writesExactly_of_lt {offset len : Nat} (hn : n ≤ 32) (hk : k ≤ 32) (hk0 : 0 < k)
    (hfits : offset + len ≤ B) (hlt : len < B) : ¬ WritesExactly B n k offset len := by
  intro hexact
  have hrun := @run_sentWrite B n k offset len hk0 hfits
  have hlen : (zeros offset len).data.length = len := length_replicate
  have hfine : (zeros offset len).Fine B False := ⟨by rw [hlen]; exact hfits, fun hf => hf.elim⟩
  obtain ⟨hdata, hlatest⟩ := latest_written (.zero : Line B) [] 0 rfl hfine
  generalize hr : zeros offset len = r at hrun hlen hfine hdata hlatest
  -- the memory writes ones behind the data
  let s₄ : Sys B := { Sys.sentWrite n k r with
    toMemory := []
    memory := writeLine ((r.line : Line B).getData 0 r.data.length) fun _ => 1
    fromMemory := [⟨.MEMORY_WB, .dma 0, .zero⟩] }
  have h₄ : Sys.step n k (Sys.sentWrite n k r : Sys B) (.access fun _ => 1) = some s₄ := rfl
  have h₅ := Sys.mem_ID_W_Ack (s := s₄) (d := 0) hn hk hk0 rfl rfl (ownerIs_new.count hn hk) hdata
  have h₅' : stepOf (Sys.step n k) s₄ .memory _ := h₅
  have hrun' := (hrun.snoc ⟨h₄, cons_ne_nil _ _, trivial, trivial⟩).snoc ⟨h₅', cons_ne_nil _ _, trivial, trivial⟩
  have hdma : s₄.dmas 0 = ⟨r.busy, some r, [], [], []⟩ := Sys.withDma_dmas n k _
  have hself : (s₄.atDma 0 (DmaNode.answer .ACK)).dmas 0 = ⟨r.busy, some r, [], [], [.ACK]⟩ := by
    rw [Sys.atDma_dmas]
    rfl
  have hmem : s₄.memory = latest .zero (s₄.log ++ [.dmaWritten 0 r.offset r.data]) :=
    (hexact .zero _ _ hrun' 0 r (by rw [hself]; exact mem_singleton_self _) (by rw [hself]) rfl).2
  -- the last byte is behind the data, and is to be zero
  have hzeros : (Line.zero : Line B).setData r.data r.offset = .zero := by
    rw [← hr]
    exact zeros_setData offset len
  have hbyte := congrFun (hmem.trans (hlatest.trans hzeros)) ⟨B - 1, by omega⟩
  have hone : s₄.memory ⟨B - 1, by omega⟩ = 1 := by
    show getD _ (B - 1) _ = _
    rw [getD_eq_getElem?_getD, getElem?_eq_none, getD_none]
    rw [Described.getData_length]
    omega
  rw [hone] at hbyte
  exact absurd (show (1 : UInt8) = 0 from hbyte) (by decide)

/-- **A DMA write changes exactly its own bytes if and only if it is of a whole line.** -/
theorem dma_writes_exactly_iff {offset len : Nat} (hn : n ≤ 32) (hk : k ≤ 32) (hk0 : 0 < k)
    (hfits : offset + len ≤ B) : WritesExactly B n k offset len ↔ len = B := by
  constructor
  · intro hexact
    by_contra hlen
    exact not_writesExactly_of_lt hn hk hk0 hfits (by omega) hexact
  · rintro rfl
    exact writesExactly_whole hn hk len offset

/-- With two caches, one DMA controller and lines of four bytes, a write of four bytes does. -/
theorem dma_writes_exactly_four : WritesExactly 4 2 1 0 4 :=
  (dma_writes_exactly_iff (by decide) (by decide) (by decide) (by decide)).mpr rfl

/-- A cache has stored 5 in the first byte, a DMA controller writes 7 to the second one; when it is
    acknowledged, what the cache stored is gone. -/
theorem dma_write_loses_store : ((exec (guardFn (Sys.step 1 1) fun s a => s.Legal 1 1 a ∧ s.Calm 1 False a)
      (Sys.init 1 1 (.zero : Line 2))
      [.issue 0 (.store 0 [5]), .mandatory 0, .request 0, .access .zero, .memory, .response 0,
        .dmaIssue 0 ⟨true, 1, [7]⟩, .dmaMandatory 0, .dmaRequest 0, .forwarded 0, .request 0,
        .access .zero, .memory]).map fun s =>
          ((s.dmas 0).responses, s.dir.state, s.log, s.memory.getData 0 2)) =
      some ([.ACK], .I, [.stored 0 0 [5], .dmaWritten 0 1 [7]], [0, 0]) ∧
    (latest (.zero : Line 2) [.stored 0 0 [5], .dmaWritten 0 1 [7]]).getData 0 2 = [5, 7] := by
  constructor <;> decide +kernel

end NvpSim.Ruby.Mi
