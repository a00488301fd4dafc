/-
  Every step of the MI_example protocol keeps its invariant.

  A step of a cache is one of the outcomes of `MiPhases`, and a move of the protocol.  A step of the directory
  is given by the home of the block and the phase of the cache whose request it looks at.

  1. **Caches.**  Whatever a cache does, its new phase is described by its new state, and the roles of all caches
     are as a move of `MiProtocol` leaves them (`Matches.applyL1`).

  2. **Requests at the directory.**  One that finds it blocked is recycled (`Matches.recycle`).  A cache that asks
     for the block gets it from memory, or from its owner (`Matches.request_asking`); a writeback is the owner's
     (`Matches.request_owner`) or comes too late (`Matches.request_late`, `Matches.request_yielded`).
-/
import NvpSim.Ruby.MiDirectory

namespace NvpSim.Ruby.Mi

open List Function

variable {B n k : Nat} {full : Prop} {L₀ L : Line B} {s : Sys B} {v : View} {i c d : Nat} {p' : Phase}

/-! ## One cache changes -/

theorem role_update (phase : Nat → Phase) (i : Nat) (p : Phase) : (fun j => (update phase i p j).role) =
      update (fun j => (phase j).role) i p.role := by
  funext j
  rw [update_apply, update_apply]
  split <;> rfl

/-- One cache changes and the others are as before. -/
theorem described_update {phase : Nat → Phase} {nodes : Nat → Node B} {c' : Node B}
    (h : ∀ j, j ≠ i → Described full L j (phase j) (nodes j)) (hi : Described full L i p' c') (j : Nat) :
    Described full L j (update phase i p' j) (update nodes i c' j) := by
  by_cases hj : j = i
  · rw [hj, update_self, update_self]
    exact hi
  · rw [update_of_ne hj, update_of_ne hj]
    exact h j hj

variable {p : Phase} {dma : Nat → DmaPhase}

theorem waiting_of_waits (h : p.role.waits = true) : ∃ told, p = .waiting told := by
  cases p with
  | waiting told => exact ⟨told, rfl⟩
  | arriving told | holding told | evicting told => cases told <;> cases h
  | _ => cases h

/-- A cache that has the block and is to pass it on has nothing else to do. -/
theorem role_of_give (hg : p.role.gives = some c) (ht : p.role.token = true) :
    p.role = { Role.busy with token := true, gives := some c } := by
  cases p with
  | arriving told | holding told | evicting told =>
    cases told <;> cases hg
    rfl
  | refused c' =>
    cases hg
    rfl
  | waiting told => cases told <;> cases ht
  | _ => cases ht

section AtHome

variable {L' : Line B} {home : Home} {serving : Option (Nat × DmaRequest)} {dir : Directory B}
  {q : List MemPkt} {a : List (MemoryMsg B)} {m : Line B}

/-- While a cache holds the block, the home does not depend on its latest value. -/
theorem AtHome.relabel (h : AtHome n k full L home serving dir q a m) (hheld : home.held = true) :
    AtHome n k full L' home serving dir q a m := by
  cases h with
  | owned ho => exact .owned ho
  | recallingRead ho hr => exact .recallingRead ho hr
  | recallingWrite ho hr => exact .recallingWrite ho hr
  | _ => cases hheld

/-- The directory's owner is the one that the protocol says. -/
theorem AtHome.owner (h : AtHome n k full L home serving dir q a m) : OwnerIs n k dir.owner home.owner := by
  cases h <;> assumption

theorem AtHome.count (hn : n ≤ 32) (hk : k ≤ 32) (h : AtHome n k full L home serving dir q a m) :
    dir.owner.count = home.owner.toFinset.card := h.owner.count hn hk

theorem AtHome.tbe_state (h : AtHome n k full L home serving dir q a m) : ∀ tbe ∈ dir.tbe, tbe.state = dir.state := by
  intro tbe htbe
  cases h with
  | free _ _ | fetching _ _ | owned _ => cases htbe
  | recalledRead _ hst _ =>
    cases htbe
    exact hst
  | _ =>
    cases htbe
    rfl

/-- With the memory idle the directory is neither fetching nor storing. -/
theorem AtHome.quiet (h : AtHome n k full L home serving dir [] [] m) :
    home.storer = none ∧ dir.state ∉ [.IM, .MI] := by
  cases h with
  | free _ _ | owned _ | recallingRead _ _ | recallingWrite _ _ => exact ⟨rfl, by simp⟩
  | _ => contradiction

end AtHome

/-- A step of the system is defined, and keeps the invariant. -/
def Keeps (n k : Nat) (full : Prop) (L₀ : Line B) (x : Option (Sys B)) : Prop :=
  ∃ s' v', x = some s' ∧ Matches n k full L₀ s' v'

/-- A step that keeps the description has its transition. -/
theorem Keeps.ne_none {x : Option (Sys B)} (h : Keeps n k full L₀ x) : x ≠ none := by
  obtain ⟨s', -, hs', -⟩ := h
  rw [hs']
  exact Option.some_ne_none s'

/-- **A step of a cache** keeps the invariant. -/
theorem Matches.applyL1 (hn : n ≤ 32) (hk : k ≤ 32) (h : Matches n k full L₀ s v) (hi : i < n)
    {r : L1Result B} (hd : Described full (latest (latest L₀ s.log) r.log) i p' r.node)
    (ho : Outcome full (latest L₀ s.log) i (v.phase i) p' r.sent r.log) : Keeps n k full L₀ (s.applyL1 n k i r) := by
  obtain ⟨node, sent, log⟩ := r
  unfold Sys.applyL1
  -- a step that sends nothing and completes nothing changes the phase of the cache alone
  have hquiet : Described full (latest L₀ s.log) i p' node →
      Ruled n (update (fun j => (v.phase j).role) i p'.role) v.home →
      Matches n k full L₀ { s with nodes := update s.nodes i node, log := s.log ++ [] }
        { v with phase := update v.phase i p' } := by
    intro hnode hruled
    rw [append_nil]
    refine { h with nodes := described_update (fun j _ => h.nodes j) hnode, ruled := ?_ }
    show Ruled n (fun j => (update v.phase i p' j).role) v.home
    rw [role_update]
    exact hruled
  have hsame : p'.role = (v.phase i).role → Ruled n (update (fun j => (v.phase j).role) i p'.role) v.home := by
    intro hrole
    rw [hrole, update_eq_self i fun j => (v.phase j).role]
    exact h.ruled
  cases ho with
  | keep hrole => exact ⟨_, _, rfl, hquiet hd (hsame hrole)⟩
  | ask hidle => exact ⟨_, _, rfl, hquiet hd (h.ruled.ask hi (by rw [hidle]; rfl))⟩
  | finish hbusy => exact ⟨_, _, rfl, hquiet hd (h.ruled.finish hbusy)⟩
  | seen hrole =>
    refine ⟨_, _, rfl, hquiet hd ?_⟩
    rw [hrole]
    exact h.ruled.seen
  | complete hrole htok hright =>
    refine ⟨_, { v with phase := update v.phase i p' }, rfl, ?_, ?_, ?_, ?_, h.served, h.bounded, ?_⟩
    · -- the others do not have the token, and do not know the line
      refine described_update ?_ (by rw [latest_append]; exact hd)
      intro j hj
      refine (h.nodes j).relabel ?_
      by_contra htj
      exact hj (h.ruled.token j i (by simpa using htj) htok)
    · show Ruled n (fun j => (update v.phase i p' j).role) v.home
      rw [role_update]
      exact hsame hrole
    · exact h.atHome.relabel (h.ruled.held i htok)
    · intro d
      exact (h.dmas d).mono
    · intro hf
      exact allRight_append.mpr ⟨h.log hf, hright hf, trivial⟩
  | hand hgive htok hp' hv =>
    rename_i c w
    obtain ⟨rank, hrank⟩ := h.ruled.rank
    have hne : c ≠ i := by
      intro heq
      have := hrank i c hgive
      rw [heq] at this
      exact lt_irrefl _ this
    obtain ⟨told, htold⟩ := waiting_of_waits (h.ruled.gives i c hgive)
    have hc : c < n := by
      refine h.ruled.bounded c ?_
      rw [htold]
      cases told <;> rfl
    have hnode := h.nodes c
    rw [htold] at hnode
    generalize hcnode : s.nodes c = cnode at hnode
    cases hnode with
    | waiting hm =>
      rw [foldlM_cons, Sys.respond_l1Cache hn hk hc]
      refine ⟨_, { v with phase := update (update v.phase i p') c (.arriving told) },
        rfl, ?_, ?_, ?_, ?_, h.served, h.bounded, ?_⟩
      · rw [append_nil]
        refine described_update ?_ ?_
        · intro j hj
          exact described_update (fun j _ => h.nodes j) hd j
        · dsimp only
          rw [update_of_ne hne, hcnode]
          exact .arriving hm hv
      · show Ruled n (fun j =>
          (update (update v.phase i p') c (.arriving told) j).role) v.home
        rw [role_update, role_update]
        have hrole : (Phase.arriving told).role = { (v.phase c).role with waits := false, token := true } := by
          rw [htold]
          cases told <;> rfl
        rw [hrole]
        have hgiver := role_of_give hgive htok
        refine h.ruled.hand hgive htok (by rw [hgiver]; rfl) ?_ (by rw [hgiver]; rfl)
          (by rw [hgiver]; rfl) (by rw [hgiver]; rfl) hi
        rcases hp' with rfl | rfl | rfl <;> rfl
      · rw [append_nil]
        exact h.atHome
      · rw [append_nil]
        exact h.dmas
      · rw [append_nil]
        exact h.log

/-! ## Requests to the directory -/

/-- **A recycled message** changes nothing. -/
theorem Matches.recycle (h : Matches n k full L₀ s v) {event : DirEvent}
    (hrec : Recycled s.dir.state event) (port : DirPort) : Keeps n k full L₀ (s.doTransition n k port event) :=
  ⟨s, v, Sys.recycle hrec h.atHome.tbe_state, h⟩

/-- **The owner is told** to pass the block on, or to give it back. -/
theorem Described.tell {x : Node B} (h : Described full L i p x) (hcur : p.role.current = true)
    (hfetch : p.role.fetches = false) (hrec : p.role.recalled = false) (told : Told)
    {msg : RequestMsg B} (hmsg : told.msgs = [msg]) : ∃ p', Described full L i p' (x.tell msg) ∧
      p'.role = told.mark { p.role with current := false } ∧ p.role.gives = none := by
  -- in all these phases the role is a mark, and the message comes behind those that tell it
  have htold : ∀ {t : Told} {r : Role} {P : Told → Phase} (f : List (RequestMsg B) → Node B),
      (t.mark r).current = true → (t.mark r).recalled = false → r.current = false →
      r.gives = none → (P told).role = told.mark r → Described full L i (P told) (f told.msgs) →
      ∃ p', Described full L i p' (f (t.msgs ++ [msg])) ∧
        p'.role = told.mark { t.mark r with current := false } ∧ (t.mark r).gives = none := by
    intro t r P f hcur hrec hr hgives hrole hdesc
    cases t with
    | nothing =>
      refine ⟨P told, ?_, ?_, hgives⟩
      · show Described full L i _ (f [msg])
        rw [← hmsg]
        exact hdesc
      · rw [hrole, show ({ Told.nothing.mark r with current := false } : Role) = r by rw [← hr]; rfl]
    | give c => exact absurd (hr.symm.trans hcur) (by decide)
    | inv => cases hrec
  cases h with
  | waiting hm =>
    exact htold (fun q => ⟨_, _, _, _, _, q, _⟩) hcur hrec rfl rfl rfl (.waiting hm)
  | arriving hm hv =>
    exact htold (fun q => ⟨_, _, _, _, _, q, _⟩) hcur hrec rfl rfl rfl (.arriving hm hv)
  | holding hq hv =>
    exact htold (fun q => ⟨_, _, _, _, _, q, _⟩) hcur hrec rfl rfl rfl (.holding hq hv)
  | evicting hq hv =>
    exact htold (fun q => ⟨_, _, _, _, _, q, _⟩) hcur hrec rfl rfl rfl (.evicting hq hv)
  | fetching _ => cases hfetch
  | _ => cases hcur

theorem idle_of_current (h : p.role.current = true) : p.role.idle = false := by
  cases p with
  | waiting told | arriving told | holding told | evicting told => cases told <;> rfl
  | fetching => rfl
  | _ => cases h

/-- The owner of a block that is at rest has not been told anything yet. -/
theorem Ruled.owner_plain {role : Nat → Role} {o : Nat} (h : Ruled n role (.owned o)) :
    (role o).current = true ∧ (role o).fetches = false ∧ (role o).recalled = false := by
  refine ⟨(h.current o).mpr rfl, ?_, ?_⟩
  · by_contra hf
    cases (h.fetches o).mp (by simpa using hf)
  · by_contra hr
    cases h.recalled o (by simpa using hr)

theorem dmaDescribed_update {log : List Done} {dmas : Nat → DmaNode B} {q : DmaPhase}
    {x : DmaNode B} (h : ∀ d, DmaDescribed full log d (dma d) (dmas d)) (hd : DmaDescribed full log d q x) (e : Nat) :
    DmaDescribed full log e (update dma d q e) (update dmas d x e) := by
  by_cases he : e = d
  · rw [he, update_self, update_self]
    exact hd
  · rw [update_of_ne he, update_of_ne he]
    exact h e

/-- The request that the directory served is answered. -/
theorem served_answer {r : DmaRequest} (h : ∀ e r', dma e = .served r' ↔ some (d, r) = some (e, r')) :
    ∀ e r', update dma d (.answered r) e = .served r' ↔ none = some (e, r') := by
  intro e r'
  refine ⟨?_, nofun⟩
  intro he
  by_cases hed : e = d
  · rw [hed, update_self] at he
    cases he
  · rw [update_of_ne hed] at he
    cases (h e r').mp he
    exact absurd rfl hed

/-- Only controllers of the system are not ready. -/
theorem bounded_update {q : DmaPhase} (h : ∀ e, dma e ≠ .ready → e < k) (hd : d < k) :
    ∀ e, update dma d q e ≠ .ready → e < k := by
  intro e he
  by_cases hed : e = d
  · rw [hed]
    exact hd
  · rw [update_of_ne hed] at he
    exact h e he

/-- The DMA controller that the directory serves waits for its answer. -/
theorem Matches.serves {r : DmaRequest} (h : Matches n k full L₀ s v) (hserving : v.serving = some (d, r)) :
    v.dma d = .served r ∧ d < k ∧ r.Fine B full ∧ s.dmas d = ⟨r.busy, some r, [], [], []⟩ := by
  have hserved := (h.served d r).mpr hserving
  have hdesc := h.dmas d
  rw [hserved] at hdesc
  refine ⟨hserved, h.bounded d (by rw [hserved]; intro hc; cases hc), ?_⟩
  generalize s.dmas d = x at hdesc
  cases hdesc with
  | served hr => exact ⟨hr, rfl⟩

section

variable (hn : n ≤ 32) (hk : k ≤ 32) (h : Matches n k full L₀ s v) (hi : i < n)

include hn hk h hi

/-- **A request for the block**: it is asked for at the memory or at the owner, or looked at again later. -/
theorem Matches.request_asking (hp : v.phase i = .asking) : Keeps n k full L₀ (s.requestQueue n k i) := by
  obtain ⟨nodes, dmas, dir, q, a, m, log⟩ := s
  obtain ⟨phase, home, serving, dma⟩ := v
  have hnode := h.nodes i
  have hat := h.atHome
  have hruled := h.ruled
  dsimp only at hnode hat hruled hp
  rw [hp] at hnode
  generalize hc : nodes i = c at hnode
  cases hnode with
  | asking hmiss =>
    have hreq : (nodes i).requests = [⟨.GETX, .l1Cache i, .zero⟩] := by rw [hc]
    have hbusy : (phase i).role = .busy := by rw [hp]; rfl
    have hlater : dir.state ≠ .M → dir.state ≠ .I →
        Keeps n k full L₀ (Sys.requestQueue n k ⟨nodes, dmas, dir, q, a, m, log⟩ i) := by
      intro hM hI
      unfold Sys.requestQueue
      rw [Sys.peekRequest, hreq]
      exact h.recycle (recycled_GETX hM hI) _
    cases hat with
    | free ho hfree =>
      obtain ⟨owner', hadd, howner'⟩ := ho.clear.add hn hk hi
      refine ⟨_, ⟨update phase i .fetching, .fetching i, none, dma⟩,
        Sys.request_I_GETX hreq rfl hadd, ?_, ?_, .fetching howner' (.asked hfree), h.dmas, h.served,
        h.bounded, h.log⟩
      · refine described_update (fun j _ => h.nodes j) ?_
        dsimp only
        rw [hc]
        exact .fetching hmiss
      · rw [role_update]
        exact hruled.fetch hbusy
    | owned ho =>
      rename_i o
      obtain ⟨hcur, hfetch, hrec⟩ := hruled.owner_plain
      have hne : i ≠ o := by
        intro heq
        rw [← heq, hbusy] at hcur
        cases hcur
      have hon : o < n := hruled.bounded o (idle_of_current hcur)
      obtain ⟨owner', hadd, howner'⟩ := ho.clear.add hn hk hi
      obtain ⟨p', hdesc, hrole, hlast⟩ := (h.nodes o).tell hcur hfetch hrec (.give i) rfl
      refine ⟨_, ⟨update (update phase o p') i (.waiting .nothing), .owned i, none, dma⟩,
        Sys.request_M_GETX hn hk hreq rfl ho hon hne hadd (by rw [howner'.count hn hk]; rfl), ?_, ?_,
        .owned howner', h.dmas, h.served, h.bounded, h.log⟩
      · refine described_update (fun j _ => described_update (fun j _ => h.nodes j) hdesc j) ?_
        show Described full _ i _ (Node.taken (update nodes o _ i))
        rw [update_of_ne hne, hc]
        exact .waiting hmiss
      · rw [role_update, role_update, hrole]
        exact hruled.forward (Ne.symm hne) hbusy hlast
    | _ => exact hlater nofun nofun

/-! ## Writebacks -/

/-- **A writeback of a cache that was told to give the block away** is refused. -/
theorem Matches.request_late (hp : v.phase i = .evicting (.give c)) : Keeps n k full L₀ (s.requestQueue n k i) := by
  obtain ⟨nodes, dmas, dir, q, a, m, log⟩ := s
  obtain ⟨phase, home, serving, dma⟩ := v
  have hnode := h.nodes i
  have hat := h.atHome
  have hruled := h.ruled
  dsimp only at hnode hat hruled hp
  rw [hp] at hnode
  generalize hc : nodes i = x at hnode
  cases hnode with
  | evicting hqd hv =>
    rename_i w table queue
    have hreq : (nodes i).requests = [⟨.PUTX, .l1Cache i, w⟩] := by rw [hc]
    have hheld := hruled.held i (by rw [hp]; rfl)
    have hother : home.owner ≠ some i := by
      intro howns
      have := (hruled.current i).mpr howns
      rw [hp] at this
      cases this
    have hopen : home.closed ≠ true := by
      intro hclosed
      have := (hruled.closed hclosed i).2
      rw [hp] at this
      cases this
    cases hat with
    | owned ho =>
      rename_i o
      have hevent := Sys.requestQueue_PUTX hreq hn hk hi h.atHome.owner
      rw [if_neg hother] at hevent
      refine ⟨_, ⟨update phase i (.refused c), .owned o, none, dma⟩,
        hevent.trans (Sys.request_PUTX_NotOwner hreq hn hk hi
          (Or.inr ⟨rfl, by rw [ho.count hn hk]; rfl⟩)), ?_, ?_, .owned ho, h.dmas, h.served, h.bounded, h.log⟩
      · refine described_update (fun j _ => h.nodes j) ?_
        dsimp only
        rw [hc]
        exact .refused hqd hv
      · rw [role_update]
        have hrole : (Phase.refused c).role = (phase i).role := by rw [hp]; rfl
        rw [hrole, update_eq_self i fun j => (phase j).role]
        exact hruled
    | recallingRead _ _ | recallingWrite _ _ => exact absurd rfl hopen
    | _ => cases hheld

/-- **A writeback of a cache that has given the block away** is refused, now or later. -/
theorem Matches.request_yielded (hp : v.phase i = .yielded) : Keeps n k full L₀ (s.requestQueue n k i) := by
  have hnode := h.nodes i
  rw [hp] at hnode
  generalize hc : s.nodes i = x at hnode
  cases hnode with
  | yielded hqd =>
    rename_i w table queue
    have hreq : (s.nodes i).requests = [⟨.PUTX, .l1Cache i, w⟩] := by rw [hc]
    have hother : v.home.owner ≠ some i := by
      intro howns
      have := (h.ruled.current i).mpr howns
      rw [hp] at this
      cases this
    have hopen : v.home.closed ≠ true := by
      intro hclosed
      have := (h.ruled.closed hclosed i).1
      rw [hp] at this
      cases this
    rw [Sys.requestQueue_PUTX hreq hn hk hi h.atHome.owner, if_neg hother]
    -- refused now: the block is free or owned
    have hnow : ∀ {owner : NetDest}, (s.dir = ⟨.I, owner, none⟩ ∧ owner.count = 0 ∨
        s.dir = ⟨.M, owner, none⟩ ∧ owner.count = 1) →
        Keeps n k full L₀ (s.doTransition n k (.request i) .PUTX_NotOwner) := by
      intro owner hdir
      refine ⟨_, { v with phase := update v.phase i .nacked },
        Sys.request_PUTX_NotOwner hreq hn hk hi hdir, { h with nodes := ?_, ruled := ?_ }⟩
      · refine described_update (fun j _ => h.nodes j) ?_
        rw [hc]
        exact .nacked hqd
      · show Ruled n (fun j => (update v.phase i .nacked j).role) v.home
        rw [role_update]
        exact h.ruled.nack (by rw [hp]; rfl)
    have hcount := h.atHome.count hn hk
    obtain ⟨nodes, dmas, dir, q, a, m, log⟩ := s
    obtain ⟨phase, home, serving, dma⟩ := v
    have hat := h.atHome
    cases hat with
    | free _ _ => exact hnow (Or.inl ⟨rfl, hcount⟩)
    | owned _ => exact hnow (Or.inr ⟨rfl, hcount⟩)
    | dmaReading _ _ _ _ | dmaWriting _ _ _ | fetching _ _ | storing _ _ =>
      exact h.recycle (recycled_request (by simp) (by decide)) _
    | recallingRead _ _ | recallingWrite _ _ | recalledRead _ _ _ | recalledWrite _ _ _ =>
      exact absurd rfl hopen

/-- **A writeback of the owner** is accepted. -/
theorem Matches.request_owner {told : Told} (hp : v.phase i = .evicting told)
    (hcur : (v.phase i).role.current = true) : Keeps n k full L₀ (s.requestQueue n k i) := by
  obtain ⟨nodes, dmas, dir, q, a, m, log⟩ := s
  obtain ⟨phase, home, serving, dma⟩ := v
  have hnode := h.nodes i
  have hat := h.atHome
  have hruled := h.ruled
  dsimp only at hnode hat hruled hp hcur
  rw [hp] at hnode
  generalize hc : nodes i = x at hnode
  cases hnode with
  | evicting hqd hv =>
    rename_i w table queue
    have hreq : (nodes i).requests = [⟨.PUTX, .l1Cache i, w⟩] := by rw [hc]
    have howns := (hruled.current i).mp hcur
    have hevent := Sys.requestQueue_PUTX hreq hn hk hi h.atHome.owner
    rw [if_pos howns] at hevent
    have htok : (phase i).role.token = true := by rw [hp]; exact Described.mark_token _ _
    have hheld := hruled.held i htok
    have hgives : (phase i).role.gives = none := by
      rw [hp] at hcur ⊢
      cases told with
      | give c => cases hcur
      | nothing | inv => rfl
    have hwaits : (phase i).role.waits = false := by
      rw [hp]
      cases told <;> rfl
    -- the writeback is taken, and what the cache was told to do is left
    have hwritten : ∃ b, Described full (latest L₀ log) i (.written b) (Node.taken (nodes i)) := by
      rw [hc]
      cases told with
      | nothing => exact ⟨false, .written hqd⟩
      | inv => exact ⟨true, .written hqd⟩
      | give c => rw [hp] at hcur; cases hcur
    obtain ⟨b, hwritten⟩ := hwritten
    have hback : ∀ junk, full → writeLine (w.getData 0 B) junk = latest L₀ log := by
      intro junk hf
      rw [writeLine_getData, hv hf]
    have hnodes := described_update (fun j (_ : j ≠ i) => h.nodes j) hwritten
    have hroles : ∀ {home' : Home}, home = .owned i ∧ home' = .storing i ∨ home = .recalling i ∧ home' = .recalled i →
        Ruled n (fun j => (update phase i (.written b) j).role) home' := by
      intro home' hhome
      rw [role_update]
      exact hruled.accept hhome hi htok hgives hwaits
    cases hat with
    | owned ho =>
      cases howns
      exact ⟨_, ⟨update phase i (.written b), .storing i, none, dma⟩,
        hevent.trans (Sys.request_M_PUTX hreq rfl), hnodes, hroles (Or.inl ⟨rfl, rfl⟩),
        .storing ho.clear (.asked hback), h.dmas, h.served, h.bounded, h.log⟩
    | recallingRead ho hr =>
      rename_i d r
      cases howns
      obtain ⟨-, hd, hfine, hdma⟩ := h.serves rfl
      refine ⟨_, ⟨update phase i (.written b), .recalled i, none, update dma d (.answered r)⟩,
        hevent.trans (Sys.request_M_DRD_PUTX hreq hn hk hd rfl), hnodes, hroles (Or.inr ⟨rfl, rfl⟩),
        .recalledRead ho.clear rfl (.asked hback), ?_, served_answer h.served, bounded_update h.bounded hd, h.log⟩
      refine dmaDescribed_update h.dmas ?_
      show DmaDescribed full _ d _ (DmaNode.answer _ (dmas d))
      rw [show dmas d = _ from hdma]
      exact .answeredData hfine hr
    | recallingWrite ho hr =>
      rename_i d r
      cases howns
      obtain ⟨-, hd, hfine, -⟩ := h.serves rfl
      exact ⟨_, ⟨update phase i (.written b), .recalled i, some (d, r), dma⟩,
        hevent.trans (Sys.request_M_DWR_PUTX hreq (by have := hfine.fits; omega) rfl), hnodes,
        hroles (Or.inr ⟨rfl, rfl⟩), .recalledWrite ho.clear hr (.asked fun junk hf =>
          writeLine_whole hr (hfine.whole hf hr) hfine.fits _ junk), h.dmas, h.served, h.bounded, h.log⟩
    | _ => cases hheld

/-- **Every request at the head of a queue of the directory** is dealt with. -/
theorem Matches.request (hne : (s.nodes i).requests ≠ []) : Keeps n k full L₀ (s.requestQueue n k i) := by
  have hnode := h.nodes i
  generalize hc : s.nodes i = x at hnode hne
  generalize hp : v.phase i = p at hnode
  cases hnode with
  | asking _ => exact h.request_asking hn hk hi hp
  | evicting _ _ =>
    rename_i told _ _ _ _ _
    cases told with
    | give c => exact h.request_late hn hk hi hp
    | nothing | inv => exact h.request_owner hn hk hi hp (by rw [hp]; rfl)
  | yielded _ => exact h.request_yielded hn hk hi hp
  | _ => exact absurd rfl hne

end

end NvpSim.Ruby.Mi
