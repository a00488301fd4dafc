/-
  The memory, the DMA controllers and the processors of the MI_example protocol: their steps keep the invariant
  too, and with them every step does (`Matches.step`).

  1. **The memory** answers one packet (`Matches.access`): it is read only while no cache has the block, and what it
     stores is a writeback, or the buffer of a DMA write.

  2. **The directory** takes the answer (`Matches.memory`): whoever waited for it is told, and the block is free.

  3. **DMA requests** (`Matches.dmaRequest`) are served at once if nobody has the block, wait while the directory is
     blocked, and else call the block back from its owner.  They are looked at when the time is right (`Settled`):
     a cache that has lost the block and has not noticed would answer in the owner's place.

  4. **Processors and devices** start accesses, which only they see.
-/
import NvpSim.Ruby.MiSteps

namespace NvpSim.Ruby.Mi

open List Function

variable {B n k : Nat} {full : Prop} {L₀ L : Line B} {s : Sys B} {v : View} {i c d : Nat} {p' : Phase}

/-! ## The memory -/

variable {p : Phase} {x : Node B} {r : DmaRequest}

theorem written_of_writes (h : p.role.writes = true) : ∃ b, p = .written b := by
  cases p with
  | written b => exact ⟨b, rfl⟩
  | waiting told | arriving told | holding told | evicting told => cases told <;> cases h
  | _ => cases h

theorem fetching_of_fetches (h : p.role.fetches = true) : p = .fetching := by
  cases p with
  | fetching => rfl
  | waiting told | arriving told | holding told | evicting told => cases told <;> cases h
  | _ => cases h

/-- A cache whose writeback has been stored is sent the ack. -/
theorem Described.ack {b : Bool} (h : Described full L i (.written b) x) :
    Described full L i (.acked b) (x.tell ⟨.WB_ACK, .l1Cache i, .zero⟩) := by
  cases h with
  | written hq => exact .acked hq

section

variable (h : Matches n k full L₀ s v)

include h

/-- While no cache holds the block, a description holds for any latest value. -/
theorem Matches.relabel (hheld : v.home.held = false) (j : Nat) : Described full L j (v.phase j) (s.nodes j) := by
  refine (h.nodes j).relabel ?_
  by_contra htok
  have := h.ruled.held j (by simpa using htok)
  rw [hheld] at this
  cases this

/-- The writeback that is being stored is that of a cache of the system. -/
theorem Matches.storer (hhome : v.home = .storing i ∨ v.home = .recalled i) :
    ∃ b, v.phase i = .written b ∧ i < n := by
  have hstorer : v.home.storer = some i := by rcases hhome with hhome | hhome <;> rw [hhome] <;> rfl
  have hwrites := (h.ruled.writes i).mpr hstorer
  obtain ⟨b, hb⟩ := written_of_writes hwrites
  refine ⟨b, hb, h.ruled.bounded i ?_⟩
  rw [hb]
  rfl

/-- Once the writeback is stored and acked, the block is free. -/
theorem Matches.stored_roles {b : Bool} (hhome : v.home = .storing i ∨ v.home = .recalled i)
    (hb : v.phase i = .written b) : Ruled n (fun j => (update v.phase i (.acked b) j).role) .free := by
  rw [role_update]
  exact h.ruled.stored hhome (by rw [hb]; rfl)

theorem Matches.log_written (d offset : Nat) (data : List UInt8) :
    full → AllRight L₀ (s.log ++ [.dmaWritten d offset data]) :=
  fun hf => allRight_append.mpr ⟨h.log hf, trivial, trivial⟩

end

/-- **A DMA write** is readable from the line that it is sent in, and sets its bytes in the latest value. -/
theorem latest_written (L₀ : Line B) (log : List Done) (d : Nat) (hw : r.write = true) (hr : r.Fine B full) :
    (r.line : Line B).getData r.offset r.data.length = r.data ∧ latest L₀ (log ++ [.dmaWritten d r.offset r.data]) =
        (latest L₀ log).setData r.data r.offset := by
  constructor
  · rw [DmaRequest.line, if_pos hw]
    exact getData_setData _ hr.fits
  · rw [latest_append]
    rfl

/-- **The memory has stored a writeback**: the owner is acked and nobody has the block. -/
theorem Matches.stored {owner : NetDest} {tbe : DirTBE B} {st : DirState} (hn : n ≤ 32) (hk : k ≤ 32)
    (h : Matches n k full L₀ s v) (hhome : v.home = .storing i ∨ v.home = .recalled i)
    (hserving : v.serving = none) (ho : OwnerIs n k owner none) (hdir : s.dir = ⟨st, owner, some tbe⟩)
    (hst : st = .MI ∨ st = .M_DRDI) (htbe : tbe.state = st) (hq : s.toMemory = [])
    (ha : s.fromMemory = [⟨.MEMORY_WB, .l1Cache i, .zero⟩])
    (hdone : full → s.memory = latest L₀ s.log) : Keeps n k full L₀ (s.memQueue n k) := by
  obtain ⟨b, hb, hi⟩ := h.storer hhome
  have hnode := h.nodes i
  rw [hb] at hnode
  refine ⟨_, ⟨update v.phase i (.acked b), .free, none, v.dma⟩,
    Sys.mem_writeback_Ack hn hk hi ha hdir hst htbe (ho.count hn hk),
    described_update (fun j _ => h.nodes j) hnode.ack, h.stored_roles hhome hb, ?_, h.dmas, ?_, h.bounded, h.log⟩
  · show AtHome n k full _ _ _ _ s.toMemory [] s.memory
    rw [hq]
    exact .free ho hdone
  · intro d r
    rw [h.served d r, hserving]

/-- **Every answer of the memory** is dealt with. -/
theorem Matches.memory (hn : n ≤ 32) (hk : k ≤ 32) (h : Matches n k full L₀ s v)
    (hne : s.fromMemory ≠ []) : Keeps n k full L₀ (s.memQueue n k) := by
  have hcount := h.atHome.count hn hk
  obtain ⟨nodes, dmas, dir, q, a, m, log⟩ := s
  obtain ⟨phase, home, serving, dma⟩ := v
  have hat := h.atHome
  have hruled := h.ruled
  dsimp only at hat hruled hcount hne
  cases hat with
  | free _ _ | owned _ | recallingRead _ _ | recallingWrite _ _ => exact absurd rfl hne
  | dmaReading ho hfree hr hread =>
    rename_i d r
    cases hread with
    | asked _ => exact absurd rfl hne
    | done _ =>
      obtain ⟨-, hd, hfine, hdma⟩ := h.serves rfl
      refine ⟨_, ⟨phase, .free, none, update dma d (.answered r)⟩,
        Sys.mem_ID_Data hn hk hd rfl rfl hcount, h.nodes, hruled, .free ho hfree,
        dmaDescribed_update h.dmas ?_, served_answer h.served, bounded_update h.bounded hd, h.log⟩
      rw [hdma]
      exact .answeredData hfine hr
  | dmaWriting ho hr hwrite =>
    rename_i d r
    cases hwrite with
    | asked _ => exact absurd rfl hne
    | done hdone =>
      obtain ⟨-, hd, hfine, hdma⟩ := h.serves rfl
      obtain ⟨hdata, hlatest⟩ := latest_written L₀ log d hr hfine
      refine ⟨_, ⟨phase, .free, none, update dma d (.answered r)⟩,
        Sys.mem_ID_W_Ack hn hk hd rfl rfl hcount hdata, h.relabel rfl, hruled, .free ho (hlatest ▸ hdone), ?_,
        served_answer h.served, bounded_update h.bounded hd, h.log_written d r.offset r.data⟩
      refine dmaDescribed_update (fun e => (h.dmas e).mono) ?_
      rw [hdma]
      exact .answeredAck hfine hr (mem_append_right _ (mem_singleton_self _))
  | fetching ho hread =>
    rename_i o
    cases hread with
    | asked _ => exact absurd rfl hne
    | done hv =>
      have hphase := fetching_of_fetches ((hruled.fetches o).mpr rfl)
      have hrole : (phase o).role = { Role.busy with current := true, fetches := true } := by
        rw [hphase]
        rfl
      have hon : o < n := hruled.bounded o (by rw [hrole]; rfl)
      have hnode := h.nodes o
      dsimp only at hnode
      rw [hphase] at hnode
      refine ⟨_, ⟨update phase o (.arriving .nothing), .owned o, none, dma⟩,
        Sys.mem_IM_Data hn hk hon rfl rfl hcount, described_update (fun j _ => h.nodes j) ?_, ?_,
        .owned ho, h.dmas, h.served, h.bounded, h.log⟩
      · dsimp only
        generalize nodes o = x at hnode
        cases hnode with
        | fetching hmiss => exact .arriving hmiss hv
      · rw [role_update]
        exact hruled.supply hrole
  | storing ho hwrite =>
    cases hwrite with
    | asked _ => exact absurd rfl hne
    | done hdone => exact h.stored hn hk (Or.inl rfl) rfl ho rfl (Or.inl rfl) rfl rfl rfl hdone
  | recalledRead ho htbe hwrite =>
    cases hwrite with
    | asked _ => exact absurd rfl hne
    | done hdone => exact h.stored hn hk (Or.inr rfl) rfl ho rfl (Or.inr rfl) htbe rfl rfl hdone
  | recalledWrite ho hr hwrite =>
    rename_i i d r
    cases hwrite with
    | asked _ => exact absurd rfl hne
    | done hdone =>
      obtain ⟨b, hb, hi⟩ := h.storer (Or.inr rfl)
      obtain ⟨-, hd, hfine, hdma⟩ := h.serves rfl
      obtain ⟨hdata, hlatest⟩ := latest_written L₀ log d hr hfine
      have hnode : Described full (latest L₀ (log ++ [.dmaWritten d r.offset r.data])) i (phase i)
          (nodes i) := h.relabel rfl i
      rw [show phase i = _ from hb] at hnode
      refine ⟨_, ⟨update phase i (.acked b), .free, none, update dma d (.answered r)⟩,
        Sys.mem_M_DWRI_Ack hn hk hi hd rfl rfl hcount hdata,
        described_update (fun j _ => h.relabel rfl j) hnode.ack, h.stored_roles (Or.inr rfl) hb,
        .free ho (hlatest ▸ hdone), ?_, served_answer h.served, bounded_update h.bounded hd, h.log_written d r.offset r.data⟩
      refine dmaDescribed_update (fun e => (h.dmas e).mono) ?_
      show DmaDescribed full _ d _ (DmaNode.answer _ (dmas d))
      rw [show dmas d = _ from hdma]
      exact .answeredAck hfine hr (mem_append_right _ (mem_singleton_self _))

/-- A read of the memory is answered with the line it has. -/
theorem Reading.access {ok : Line B → Prop} {id : MachineID}
    (h : Reading ok id s.toMemory s.fromMemory s.memory) (hne : s.toMemory ≠ []) (junk : Line B) :
    ∃ a, s.access junk = some { s with toMemory := [], fromMemory := a } ∧ Reading ok id [] a s.memory := by
  obtain ⟨nodes, dmas, dir, q, a, m, log⟩ := s
  cases h with
  | asked hok => exact ⟨_, rfl, .done hok⟩
  | done _ => exact absurd rfl hne

/-- A write is stored, whatever lies behind the buffer of its packet, and acked. -/
theorem Writing.access {ok : Line B → Prop} {id : MachineID}
    (h : Writing ok id s.toMemory s.fromMemory s.memory) (hne : s.toMemory ≠ []) (junk : Line B) :
    ∃ a m, s.access junk = some { s with toMemory := [], fromMemory := a, memory := m } ∧ Writing ok id [] a m := by
  obtain ⟨nodes, dmas, dir, q, a, m, log⟩ := s
  cases h with
  | asked hok => exact ⟨_, _, rfl, .done (hok junk)⟩
  | done _ => exact absurd rfl hne

/-- The memory serves what the directory has asked for. -/
theorem AtHome.access {home : Home} {serving : Option (Nat × DmaRequest)} {dir : Directory B}
    (h : AtHome n k full L home serving dir s.toMemory s.fromMemory s.memory)
    (hne : s.toMemory ≠ []) (junk : Line B) :
    ∃ a m, s.access junk = some { s with toMemory := [], fromMemory := a, memory := m } ∧
      AtHome n k full L home serving dir [] a m := by
  obtain ⟨nodes, dmas, dir', q, a, m, log⟩ := s
  have hreads {ok id} (hread : Reading ok id q a m) :=
    Reading.access (s := ⟨nodes, dmas, dir', q, a, m, log⟩) hread hne junk
  have hwrites {ok id} (hwrite : Writing ok id q a m) :=
    Writing.access (s := ⟨nodes, dmas, dir', q, a, m, log⟩) hwrite hne junk
  cases h with
  | free _ _ | owned _ | recallingRead _ _ | recallingWrite _ _ => exact absurd rfl hne
  | dmaReading ho hfree hr hread =>
    obtain ⟨a', hstep, hread⟩ := hreads hread
    exact ⟨a', _, hstep, .dmaReading ho hfree hr hread⟩
  | fetching ho hread =>
    obtain ⟨a', hstep, hread⟩ := hreads hread
    exact ⟨a', _, hstep, .fetching ho hread⟩
  | dmaWriting ho hr hwrite =>
    obtain ⟨a', m', hstep, hwrite⟩ := hwrites hwrite
    exact ⟨a', m', hstep, .dmaWriting ho hr hwrite⟩
  | storing ho hwrite =>
    obtain ⟨a', m', hstep, hwrite⟩ := hwrites hwrite
    exact ⟨a', m', hstep, .storing ho hwrite⟩
  | recalledRead ho htbe hwrite =>
    obtain ⟨a', m', hstep, hwrite⟩ := hwrites hwrite
    exact ⟨a', m', hstep, .recalledRead ho htbe hwrite⟩
  | recalledWrite ho hr hwrite =>
    obtain ⟨a', m', hstep, hwrite⟩ := hwrites hwrite
    exact ⟨a', m', hstep, .recalledWrite ho hr hwrite⟩

/-- **A step of the memory.** -/
theorem Matches.access (h : Matches n k full L₀ s v) (hne : s.toMemory ≠ []) (junk : Line B) :
    Keeps n k full L₀ (s.access junk) := by
  obtain ⟨a, m, hstep, hat⟩ := h.atHome.access hne junk
  exact ⟨_, v, hstep, { h with atHome := hat }⟩

/-! ## DMA requests at the directory -/

/-- The right time for the directory to look at a DMA request.  The block is not being given back for another;
    and if a cache owns it, then no other cache has a writeback on its way, or has been told to give the block
    away and not seen it. -/
def Sys.Settled (n : Nat) (s : Sys B) : Prop :=
  s.dir.state ∉ [.M_DRD, .M_DWR, .M_DRDI, .M_DWRI] ∧
    (s.dir.state = .M → ∀ i < n, s.dir.owner.isElement 0 i ≠ some true →
      (∀ m ∈ (s.nodes i).requests, m.type ≠ .PUTX) ∧ ∀ m ∈ (s.nodes i).forwards, m.type ≠ .GETX)

instance (n : Nat) (s : Sys B) : Decidable (s.Settled n) :=
  inferInstanceAs (Decidable (_ ∧ (_ → ∀ i < n, _ → _)))

theorem Told.mark_plain {told : Told} (r : Role) (h : ∀ m ∈ (told.msgs : List (RequestMsg B)), m.type ≠ .GETX) :
    (told.mark r).yielded = r.yielded ∧ (told.mark r).gives = r.gives := by
  cases told with
  | give c => exact absurd rfl (h _ (mem_singleton_self _))
  | nothing | inv => exact ⟨rfl, rfl⟩

/-- A cache without a writeback on its way or an unseen forward has not yielded the block and need not pass
    it on. -/
theorem Described.quiet (h : Described full L i p x) (hput : ∀ m ∈ x.requests, m.type ≠ .PUTX)
    (hget : ∀ m ∈ x.forwards, m.type ≠ .GETX) : p.role.yielded = false ∧ p.role.gives = none := by
  cases h with
  | waiting _ | arriving _ _ | holding _ _ | evicting _ _ => exact Told.mark_plain _ hget
  | refused _ _ => exact absurd rfl (hget _ (mem_cons_self ..))
  | yielded _ => exact absurd rfl (hput _ (mem_singleton_self _))
  | _ => exact ⟨rfl, rfl⟩

theorem Phase.plain_of_current (h : p.role.current = true) : p.role.yielded = false ∧ p.role.gives = none := by
  cases p with
  | waiting told | arriving told | holding told | evicting told =>
    cases told with
    | give c => cases h
    | nothing | inv => exact ⟨rfl, rfl⟩
  | fetching => exact ⟨rfl, rfl⟩
  | _ => cases h

theorem Phase.plain_of_idle (h : p.role.idle = true) : p.role.yielded = false ∧ p.role.gives = none := by
  cases p with
  | idle => exact ⟨rfl, rfl⟩
  | waiting told | arriving told | holding told | evicting told => cases told <;> cases h
  | _ => cases h

/-- When the time is right for a DMA request, no cache has yielded the block or has yet to pass it on. -/
theorem Matches.settled (hn : n ≤ 32) (hk : k ≤ 32) (h : Matches n k full L₀ s v)
    (hst : s.dir.state = .M) (hs : s.Settled n) (i : Nat) :
    (v.phase i).role.yielded = false ∧ (v.phase i).role.gives = none := by
  by_cases hi : i < n
  · by_cases howns : v.home.owner = some i
    · exact Phase.plain_of_current ((h.ruled.current i).mpr howns)
    · have hother : s.dir.owner.isElement 0 i ≠ some true := by
        rw [h.atHome.owner.isElement hn hk hi, decide_eq_false howns]
        intro hc
        cases hc
      obtain ⟨hput, hget⟩ := hs.2 hst i hi hother
      exact (h.nodes i).quiet hput hget
  · refine Phase.plain_of_idle ?_
    by_contra hidle
    exact hi (h.ruled.bounded i (by simpa using hidle))

/-- The directory begins to serve a DMA request when it serves no other. -/
theorem served_start {dma : Nat → DmaPhase} (h : ∀ e r', dma e = .served r' ↔ none = some (e, r')) :
    ∀ e r', update dma d (.served r) e = .served r' ↔ some (d, r) = some (e, r') := by
  intro e r'
  by_cases hed : e = d
  · subst hed
    rw [update_self]
    constructor
    · intro heq
      cases heq
      rfl
    · intro heq
      cases heq
      rfl
  · rw [update_of_ne hed]
    constructor
    · intro hserved
      cases (h e r').mp hserved
    · intro heq
      cases heq
      exact absurd rfl hed

/-- In a blocked state that allows it, a DMA request is recycled. -/
theorem Matches.dmaLater (h : Matches n k full L₀ s v) (hreq : (s.dmas d).requests = [r.msg d])
    (hst : s.dir.state ∈ [.ID, .ID_W, .IM, .MI]) : Keeps n k full L₀ (s.dmaRequestQueue n k d) := by
  unfold Sys.dmaRequestQueue
  rw [Sys.peekDma, hreq]
  exact h.recycle (recycled_request hst (by split <;> decide)) _

/-- **A DMA request, at the right time**, is dealt with. -/
theorem Matches.dmaRequest (hn : n ≤ 32) (hk : k ≤ 32) (h : Matches n k full L₀ s v) (hd : d < k)
    (hne : (s.dmas d).requests ≠ []) (hs : s.Settled n) : Keeps n k full L₀ (s.dmaRequestQueue n k d) := by
  have hsettled := h.settled hn hk
  obtain ⟨nodes, dmas, dir, q, a, m, log⟩ := s
  obtain ⟨phase, home, serving, dma⟩ := v
  have hdma := h.dmas d
  have hat := h.atHome
  have hruled := h.ruled
  dsimp only at hdma hat hruled hne hsettled
  generalize hc : dmas d = x at hdma hne
  generalize hp : dma d = p at hdma
  cases hdma with
  | asked hfine =>
    rename_i r
    have hreq : (dmas d).requests = [r.msg d] := by rw [hc]
    have hserve : ∀ e, DmaDescribed full log e (update dma d (.served r) e)
        (update dmas d (DmaNode.taken (dmas d)) e) := by
      refine dmaDescribed_update h.dmas ?_
      rw [hc]
      exact .served hfine
    have hlen : r.data.length ≤ B := le_trans (Nat.le_add_left _ _) hfine.fits
    have hwrite : r.write = true ∨ r.write = false := by cases r.write <;> simp
    cases hat with
    | free ho hfree =>
      rcases hwrite with hw | hw
      · exact ⟨_, ⟨phase, .free, some (d, r), update dma d (.served r)⟩,
          Sys.dma_I_WRITE hw hlen hreq rfl, h.nodes, hruled, .dmaWriting ho hw (.asked fun junk hf =>
            writeLine_whole hw (hfine.whole hf hw) hfine.fits _ junk), hserve,
          served_start h.served, bounded_update h.bounded hd, h.log⟩
      · exact ⟨_, ⟨phase, .free, some (d, r), update dma d (.served r)⟩,
          Sys.dma_I_READ hw hreq rfl, h.nodes, hruled, .dmaReading ho hfree hw (.asked trivial), hserve,
          served_start h.served, bounded_update h.bounded hd, h.log⟩
    | owned ho =>
      rename_i o
      obtain ⟨hcur, hfetch, hrec⟩ := hruled.owner_plain
      have hon : o < n := hruled.bounded o (idle_of_current hcur)
      obtain ⟨p', hdesc, hrole, -⟩ := (h.nodes o).tell hcur hfetch hrec .inv rfl
      have hmark : p'.role = { (phase o).role with recalled := true } := by
        rw [hrole]
        show { (phase o).role with current := true, recalled := true } = _
        rw [← hcur]
      refine ⟨_, ⟨update phase o p', .recalling o, some (d, r), update dma d (.served r)⟩,
        Sys.dma_M hn hk hreq rfl ho hon rfl, described_update (fun j _ => h.nodes j) hdesc, ?_, ?_,
        hserve, served_start h.served, bounded_update h.bounded hd, h.log⟩
      · rw [role_update, hmark]
        exact hruled.recall_owner (hsettled rfl hs)
      · rcases hwrite with hw | hw
        · rw [if_pos hw]
          exact .recallingWrite ho hw
        · rw [if_neg (by rw [hw]; decide)]
          exact .recallingRead ho hw
    | dmaReading _ _ _ _ | dmaWriting _ _ _ | fetching _ _ | storing _ _ => exact h.dmaLater hreq (by simp)
    | recallingRead _ _ | recallingWrite _ _ | recalledRead _ _ _ | recalledWrite _ _ _ =>
      exact absurd (by simp) hs.1
  | _ => exact absurd rfl hne

/-! ## Processors and devices -/

/-- A new access in the queue of the cache changes nothing that others see. -/
theorem Described.issue (h : Described full L i p x) (ht : x.table = none) {access : Access} (hfits : access.Fits B) :
    Described full L i p { x with table := some access, mandatory := x.mandatory ++ [access] } := by
  have hone : ∀ {table queue}, Queued B table queue → table = none → Queued B (some access) (queue ++ [access]) := by
    intro table queue hq htable
    cases hq with
    | none => exact .one hfits
    | one _ => cases htable
  cases h with
  | idle he hq => exact .idle he (hone hq ht)
  | holding hq hv => exact .holding (hone hq ht) hv
  | evicting hq hv => exact .evicting (hone hq ht) hv
  | refused hq hv => exact .refused (hone hq ht) hv
  | written hq => exact .written (hone hq ht)
  | acked hq => exact .acked (hone hq ht)
  | yielded hq => exact .yielded (hone hq ht)
  | nacked hq => exact .nacked (hone hq ht)
  | _ => cases ht

section

variable (h : Matches n k full L₀ s v)

include h

/-- **A CPU starts an access.** -/
theorem Matches.issue {access : Access} (ht : (s.nodes i).table = none) (hfits : access.Fits B) :
    Keeps n k full L₀ (s.step n k (.issue i access)) := by
  refine ⟨_, v, rfl, { h with nodes := ?_ }⟩
  have hnode := described_update (fun j (_ : j ≠ i) => h.nodes j) ((h.nodes i).issue ht hfits)
  rw [update_eq_self] at hnode
  exact hnode

/-- A step of a DMA controller that the directory is not serving. -/
theorem Matches.atDma (hd : d < k) {p : DmaPhase} {x : DmaNode B} (hold : ∀ r, v.dma d ≠ .served r)
    (hnew : ∀ r, p ≠ .served r) (hx : DmaDescribed full s.log d p x) :
    Matches n k full L₀ (s.atDma d fun _ => x) { v with dma := update v.dma d p } := by
  refine ⟨h.nodes, h.ruled, h.atHome, dmaDescribed_update h.dmas hx, ?_, bounded_update h.bounded hd, h.log⟩
  intro e r
  rw [← h.served e r]
  show update v.dma d p e = _ ↔ _
  by_cases hed : e = d
  · rw [hed, update_self]
    exact ⟨fun hc => absurd hc (hnew r), fun hc => absurd hc (hold r)⟩
  · rw [update_of_ne hed]

/-- **A device starts a DMA access.** -/
theorem Matches.dmaIssue (hd : d < k) (hactive : (s.dmas d).active = none) (hr : r.Fine B full) :
    Keeps n k full L₀ (s.step n k (.dmaIssue d r)) := by
  have hdma := h.dmas d
  generalize hc : s.dmas d = x at hdma hactive
  generalize hp : v.dma d = p at hdma
  cases hdma with
  | ready =>
    refine ⟨_, _, ?_, h.atDma hd (by simp [hp]) (by simp) (.queued hr)⟩
    show ((s.dmas d).makeRequest d r).map _ = _
    rw [hc, DmaNode.makeRequest, if_pos hr.fits]
    rfl
  | _ => cases hactive

/-- **A DMA controller** sends the access to the directory. -/
theorem Matches.dmaMandatory (hd : d < k) (hne : (s.dmas d).mandatory ≠ []) :
    Keeps n k full L₀ (s.step n k (.dmaMandatory d)) := by
  have hdma := h.dmas d
  generalize hc : s.dmas d = x at hdma hne
  generalize hp : v.dma d = p at hdma
  cases hdma with
  | queued hr =>
    refine ⟨_, _, ?_, h.atDma hd (by simp [hp]) (by simp) (.asked hr)⟩
    show ((s.dmas d).dmaRequestQueue).map _ = _
    rw [hc]
    rfl
  | _ => exact absurd rfl hne

/-- **A DMA controller** takes the answer and is free again. -/
theorem Matches.dmaResponse (hd : d < k) (hne : (s.dmas d).responses ≠ []) :
    Keeps n k full L₀ (s.step n k (.dmaResponse d)) := by
  have hdma := h.dmas d
  generalize hc : s.dmas d = x at hdma hne
  generalize hp : v.dma d = p at hdma
  cases hdma with
  | answeredData hr hw =>
    refine ⟨_, _, ?_, h.atDma hd (by simp [hp]) (by simp) .ready⟩
    show ((s.dmas d).dmaResponseQueue).map _ = _
    rw [hc, DmaRequest.busy, hw]
    show Option.map _ (if _ then none else _) = _
    rw [hw]
    rfl
  | answeredAck hr hw _ =>
    refine ⟨_, _, ?_, h.atDma hd (by simp [hp]) (by simp) .ready⟩
    show ((s.dmas d).dmaResponseQueue).map _ = _
    rw [hc, DmaRequest.busy, hw]
    rfl
  | _ => exact absurd rfl hne

end

/-! ## Every step -/

/-- What is asked of DMA accesses: they are looked at when the time is right, and, if `full`, writes are of
    whole lines. -/
def Sys.Calm (n : Nat) (full : Prop) (s : Sys B) : Act B → Prop
  | .dmaRequest _ => s.Settled n
  | .dmaIssue _ r => full → r.write = true → r.data.length = B
  | _ => True

/-- **Every step that can happen does, and keeps the invariant**, with at most 32 caches and 32 DMA
    controllers, if DMA accesses are calm. -/
theorem Matches.step (hn : n ≤ 32) (hk : k ≤ 32) (h : Matches n k full L₀ s v) {a : Act B}
    (hlegal : s.Legal n k a) (hcalm : s.Calm n full a) : Keeps n k full L₀ (s.step n k a) := by
  -- a step of a cache: what its controller does is an outcome
  have hcache : ∀ {i : Nat} {x : Option (L1Result B)}, i < n →
      Acts full (latest L₀ s.log) i (v.phase i) x → Keeps n k full L₀ (x.bind (s.applyL1 n k i)) := by
    rintro i x hi ⟨r, p', rfl, hdesc, hout⟩
    exact h.applyL1 hn hk hi hdesc hout
  cases a with
  | issue i access => exact h.issue hlegal.2.1 hlegal.2.2
  | mandatory i => exact hcache hlegal.1 ((h.nodes i).mandatory hlegal.2)
  | replace i => exact hcache hlegal.1 ((h.nodes i).replacement)
  | forwarded i => exact hcache hlegal.1 ((h.nodes i).forwarded hlegal.2)
  | response i => exact hcache hlegal.1 ((h.nodes i).response hlegal.2)
  | request i => exact h.request hn hk hlegal.1 hlegal.2
  | memory => exact h.memory hn hk hlegal
  | access junk => exact h.access hlegal junk
  | dmaIssue d r => exact h.dmaIssue hlegal.1 hlegal.2.1 ⟨hlegal.2.2, hcalm⟩
  | dmaMandatory d => exact h.dmaMandatory hlegal.1 hlegal.2
  | dmaRequest d => exact h.dmaRequest hn hk hlegal.1 hlegal.2 hcalm
  | dmaResponse d => exact h.dmaResponse hlegal.1 hlegal.2

end NvpSim.Ruby.Mi
