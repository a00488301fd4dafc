/-
  The phases of a cache in the MI_example protocol: what it has of the block, together with the messages from it
  and to it.

  A phase says exactly what the node of a cache looks like (`Described`), and from it follows its role.  A cache
  that asks has its request on its way, then waits for the memory or for another cache, then the data is on its
  way to it; a cache that writes back has its request on its way, was accepted, or was refused.

  `L` is the latest value of the line.
-/
import NvpSim.Ruby.MiExample
import NvpSim.Ruby.MiProtocol

namespace NvpSim.Ruby.Mi

open Option

variable {B : Nat}

/-! ## What was completed -/

namespace Done

/-- What a completed access makes of the line. -/
def apply (L : Line B) : Done → Line B
  | loaded _ _ _ => L
  | stored _ offset data | dmaWritten _ offset data => L.setData data offset

/-- A read returned the bytes of the line. -/
def Right (L : Line B) : Done → Prop
  | loaded _ offset data => data = L.getData offset data.length
  | _ => True

end Done

/-- The latest value of a line, after everything that was completed. -/
def latest (L : Line B) (log : List Done) : Line B := log.foldl Done.apply L

theorem latest_append (L : Line B) (log log' : List Done) :
    latest L (log ++ log') = latest (latest L log) log' := List.foldl_append ..

/-! ## Phases -/

/-- What a cache was told by the directory and has not seen yet: nothing, to give the block to another, or to
    give it back. -/
inductive Told where
  | nothing
  | give (c : Nat)
  | inv
  deriving DecidableEq, Repr

namespace Told

/-- The message that tells it. -/
def msgs : Told → List (RequestMsg B)
  | nothing => []
  | give c => [⟨.GETX, .l1Cache c, .zero⟩]
  | inv => [⟨.INV, .directory, .zero⟩]

/-- The role of a cache that was told. -/
def mark (r : Role) : Told → Role
  | nothing => { r with current := true }
  | give c => { r with gives := some c }
  | inv => { r with current := true, recalled := true }

end Told

/-- The phases of a cache. -/
inductive Phase where
  | idle
  | asking
  | fetching
  | waiting (told : Told)
  | arriving (told : Told)
  | holding (told : Told)
  | evicting (told : Told)
  | refused (c : Nat)
  | written (told : Bool)
  | acked (told : Bool)
  | yielded
  | nacked
  deriving DecidableEq, Repr

namespace Phase

/-- The role of a cache in a phase. -/
def role : Phase → Role
  | idle => .away
  | asking | acked _ | nacked => .busy
  | fetching => { Role.busy with current := true, fetches := true }
  | waiting told => told.mark { Role.busy with waits := true }
  | arriving told | holding told | evicting told => told.mark { Role.busy with token := true }
  | refused c => { Role.busy with token := true, gives := some c }
  | written _ => { Role.busy with writes := true }
  | yielded => { Role.busy with yielded := true }

end Phase

/-- The state and the request of a cache that misses. -/
inductive Misses (B : Nat) : L1State → Access → Prop where
  | load {offset size : Nat} (h : offset + size ≤ B) : Misses B .IS (.load offset size)
  | ifetch {offset size : Nat} (h : offset + size ≤ B) : Misses B .IS (.ifetch offset size)
  | store {offset : Nat} {data : List UInt8} (h : offset + data.length ≤ B) :
      Misses B .IM (.store offset data)

/-- The sequencer of a cache that has not missed: no request, or one that is still in the queue. -/
inductive Queued (B : Nat) : Option Access → List Access → Prop where
  | none : Queued B none []
  | one {access : Access} (h : access.Fits B) : Queued B (some access) [access]

/-- What the node of cache `i` looks like in a phase. -/
inductive Described (full : Prop) (L : Line B) (i : Nat) : Phase → Node B → Prop where
  | idle {entry : Option (Entry B)} {table : Option Access} {queue : List Access}
      (hentry : ∀ e ∈ entry, e.state = .I) (hq : Queued B table queue) :
      Described full L i .idle ⟨entry, none, table, queue, [], [], []⟩
  | asking {st : L1State} {d d' : Line B} {access : Access} (hm : Misses B st access) :
      Described full L i .asking ⟨some ⟨st, d⟩, some ⟨st, d'⟩, some access, [], [⟨.GETX, .l1Cache i, .zero⟩], [], []⟩
  | fetching {st : L1State} {d d' : Line B} {access : Access} (hm : Misses B st access) :
      Described full L i .fetching ⟨some ⟨st, d⟩, some ⟨st, d'⟩, some access, [], [], [], []⟩
  | waiting {told : Told} {st : L1State} {d d' : Line B} {access : Access} (hm : Misses B st access) :
      Described full L i (.waiting told) ⟨some ⟨st, d⟩, some ⟨st, d'⟩, some access, [], [], told.msgs, []⟩
  | arriving {told : Told} {st : L1State} {d d' v : Line B} {access : Access} {sender : MachineID}
      (hm : Misses B st access) (hv : full → v = L) :
      Described full L i (.arriving told)
        ⟨some ⟨st, d⟩, some ⟨st, d'⟩, some access, [], [], told.msgs, [⟨.DATA, sender, v⟩]⟩
  | holding {told : Told} {v : Line B} {table : Option Access} {queue : List Access}
      (hq : Queued B table queue) (hv : full → v = L) :
      Described full L i (.holding told) ⟨some ⟨.M, v⟩, none, table, queue, [], told.msgs, []⟩
  | evicting {told : Told} {v : Line B} {table : Option Access} {queue : List Access}
      (hq : Queued B table queue) (hv : full → v = L) :
      Described full L i (.evicting told) ⟨none, some ⟨.MI, v⟩, table, queue, [⟨.PUTX, .l1Cache i, v⟩], told.msgs, []⟩
  | refused {c : Nat} {v : Line B} {table : Option Access} {queue : List Access}
      (hq : Queued B table queue) (hv : full → v = L) :
      Described full L i (.refused c) ⟨none, some ⟨.MI, v⟩, table, queue, [],
          (Told.give c).msgs ++ [⟨.WB_NACK, .l1Cache i, .zero⟩], []⟩
  | written {told : Bool} {v : Line B} {table : Option Access} {queue : List Access}
      (hq : Queued B table queue) :
      Described full L i (.written told)
        ⟨none, some ⟨.MI, v⟩, table, queue, [], if told then Told.inv.msgs else [], []⟩
  | acked {told : Bool} {v : Line B} {table : Option Access} {queue : List Access}
      (hq : Queued B table queue) :
      Described full L i (.acked told) ⟨none, some ⟨.MI, v⟩, table, queue, [],
          (if told then Told.inv.msgs else []) ++ [⟨.WB_ACK, .l1Cache i, .zero⟩], []⟩
  | yielded {v w : Line B} {table : Option Access} {queue : List Access} (hq : Queued B table queue) :
      Described full L i .yielded ⟨none, some ⟨.II, v⟩, table, queue, [⟨.PUTX, .l1Cache i, w⟩], [], []⟩
  | nacked {v : Line B} {table : Option Access} {queue : List Access} (hq : Queued B table queue) :
      Described full L i .nacked ⟨none, some ⟨.II, v⟩, table, queue, [], [⟨.WB_NACK, .l1Cache i, .zero⟩], []⟩

/-- What a step of a cache comes to: the phase after it, the responses sent and the accesses completed. -/
inductive Outcome (full : Prop) (L : Line B) (i : Nat) (p : Phase) :
    Phase → List (MachineID × ResponseMsg B) → List Done → Prop where
  | keep {p' : Phase} (h : p'.role = p.role) : Outcome full L i p p' [] []
  | ask (h : p = .idle) : Outcome full L i p .asking [] []
  | complete {p' : Phase} {e : Done} (h : p'.role = p.role) (ht : p.role.token = true)
      (he : full → e.Right L) : Outcome full L i p p' [] [e]
  | hand {p' : Phase} {c : Nat} {v : Line B} (hg : p.role.gives = some c) (ht : p.role.token = true)
      (hp' : p' = .idle ∨ p' = .yielded ∨ p' = .nacked) (hv : full → v = L) :
      Outcome full L i p p' [(.l1Cache c, ⟨.DATA, .l1Cache i, v⟩)] []
  | seen {p' : Phase} (h : p'.role = { p.role with recalled := false }) : Outcome full L i p p' [] []
  | finish (h : p.role = .busy) : Outcome full L i p .idle [] []

/-- What a cache in phase `p` does is defined, and comes to one of the outcomes. -/
def Acts (full : Prop) (L : Line B) (i : Nat) (p : Phase) (x : Option (L1Result B)) : Prop :=
  ∃ r p', x = some r ∧ Described full (latest L r.log) i p' r.node ∧ Outcome full L i p p' r.sent r.log

namespace Described

variable {full : Prop} {L L' : Line B} {i : Nat} {p : Phase} {c : Node B}

theorem mark_token (t : Told) (r : Role) : (t.mark r).token = r.token := by
  cases t <;> rfl

theorem relabel (h : Described full L i p c) (ht : p.role.token = false) : Described full L' i p c := by
  cases h with
  | idle he hq => exact .idle he hq
  | asking hm => exact .asking hm
  | fetching hm => exact .fetching hm
  | waiting hm => exact .waiting hm
  | arriving _ _ | holding _ _ | evicting _ _ => cases (mark_token _ _).symm.trans ht
  | refused _ _ => cases ht
  | written hq => exact .written hq
  | acked hq => exact .acked hq
  | yielded hq => exact .yielded hq
  | nacked hq => exact .nacked hq

theorem getData_length (l : Line B) (offset len : Nat) : (l.getData offset len).length = len := by
  simp [Line.getData]

section Hits

variable {told : Told} {v : Line B} {x : Option (L1Result B)} {offset : Nat}

section

variable (hv : full → v = L) (hp : p.role = (Phase.holding told).role)

include hv hp

theorem acts_load {size : Nat} (hx : x = some ⟨⟨some ⟨.M, v⟩, none, none, [], [], told.msgs, []⟩, [],
      [.loaded i offset (v.getData offset size)]⟩) : Acts full L i p x := by
  refine ⟨_, .holding told, hx, .holding .none hv, .complete hp.symm (by rw [hp]; exact mark_token _ _) fun hf => ?_⟩
  rw [hv hf]
  show _ = L.getData offset _
  rw [getData_length]

theorem acts_store
    {data : List UInt8} (hx : x = some ⟨⟨some ⟨.M, v.setData data offset⟩, none, none, [], [],
      told.msgs, []⟩, [], [.stored i offset data]⟩) : Acts full L i p x := by
  refine ⟨_, .holding told, hx, .holding .none fun hf => ?_,
    .complete hp.symm (by rw [hp]; exact mark_token _ _) fun _ => trivial⟩
  rw [hv hf]
  rfl

end

end Hits

/-- **Data arrives**, and completes the access that missed. -/
theorem response (h : Described full L i p c) (hne : c.responses ≠ []) : Acts full L i p (c.responseNetwork i) := by
  cases h with
  | arriving hm hv =>
    cases hm with
    | load hfit | ifetch hfit =>
      apply acts_load hv
      · rfl
      · show ((L1Action.loadHit i _).bind _).map _ = _
        rw [L1Action.loadHit, bind_some, readCallback, if_pos hfit]
        rfl
    | store hfit =>
      apply acts_store hv
      · rfl
      · show ((L1Action.storeHit i _).bind _).map _ = _
        rw [L1Action.storeHit, bind_some, writeCallback, if_pos hfit]
        rfl
  | _ => exact absurd rfl hne

theorem stalls {x : Option (L1Result B)} (h : Described full L i p c) (hx : x = some ⟨c, [], []⟩) :
    Acts full L i p x := ⟨_, p, hx, h, .keep rfl⟩

theorem mandatory_idle {entry : Option (Entry B)} (hentry : ∀ e ∈ entry, e.state = .I) {access : Access}
    (hfit : access.Fits B) : Acts full L i .idle
      ((⟨entry, none, some access, [access], [], [], []⟩ : Node B).mandatoryQueue i) := by
  have hmiss : ∃ st, Misses B st access := by
    cases access with
    | load offset size => exact ⟨_, .load hfit⟩
    | ifetch offset size => exact ⟨_, .ifetch hfit⟩
    | store offset data => exact ⟨_, .store hfit⟩
  obtain ⟨st, hm⟩ := hmiss
  cases entry with
  | none =>
    refine ⟨⟨⟨some ⟨st, .zero⟩, some ⟨st, .zero⟩, some access, [],
      [⟨.GETX, .l1Cache i, .zero⟩], [], []⟩, [], []⟩, .asking, ?_, .asking hm, .ask rfl⟩
    cases hm <;> rfl
  | some e =>
    obtain ⟨st', d⟩ := e
    cases (hentry ⟨st', d⟩ rfl : st' = .I)
    refine ⟨⟨⟨some ⟨st, d⟩, some ⟨st, .zero⟩, some access, [],
      [⟨.GETX, .l1Cache i, .zero⟩], [], []⟩, [], []⟩, .asking, ?_, .asking hm, .ask rfl⟩
    cases hm <;> rfl

theorem mandatory_holding {told : Told} {v : Line B} (hv : full → v = L) {access : Access}
    (hfit : access.Fits B) : Acts full L i (.holding told)
      ((⟨some ⟨.M, v⟩, none, some access, [access], [], told.msgs, []⟩ : Node B).mandatoryQueue i) := by
  cases access with
  | load offset size | ifetch offset size =>
    have hfit : offset + size ≤ B := hfit
    apply acts_load hv
    · rfl
    · show ((L1Action.loadHit i _).bind _).map _ = _
      rw [L1Action.loadHit, bind_some, readCallback, if_pos hfit]
      rfl
  | store offset data =>
    have hfit : offset + data.length ≤ B := hfit
    apply acts_store hv
    · rfl
    · show ((L1Action.storeHit i _).bind _).map _ = _
      rw [L1Action.storeHit, bind_some, writeCallback, if_pos hfit]
      rfl

section

variable (h : Described full L i p c)

include h

/-- **A request of the processor**: a miss, a hit, or a stall. -/
theorem mandatory (hne : c.mandatory ≠ []) : Acts full L i p (c.mandatoryQueue i) := by
  have hstall : ∀ access : Access, c.mandatory = [access] → c.getState = .MI ∨ c.getState = .II →
      Acts full L i p (c.mandatoryQueue i) := by
    intro access hq hst
    refine h.stalls ?_
    unfold Node.mandatoryQueue Node.doTransition
    rw [hq]
    rcases hst with hst | hst <;> rw [hst] <;> cases access <;> rfl
  cases h with
  | idle he hq =>
    cases hq with
    | none => exact absurd rfl hne
    | one hfit => exact mandatory_idle he hfit
  | asking _ | fetching _ | waiting _ | arriving _ _ => exact absurd rfl hne
  | holding hq hv =>
    cases hq with
    | none => exact absurd rfl hne
    | one hfit => exact mandatory_holding hv hfit
  | evicting hq _ | refused hq _ | written hq | acked hq =>
    cases hq with
    | none => exact absurd rfl hne
    | one hfit => exact hstall _ rfl (Or.inl rfl)
  | yielded hq | nacked hq =>
    cases hq with
    | none => exact absurd rfl hne
    | one hfit => exact hstall _ rfl (Or.inr rfl)

/-- **The block is to make room**: it is written back if the cache holds it. -/
theorem replacement : Acts full L i p (c.replacement i) := by
  have hstall : c.getState ≠ .I → c.getState ≠ .M → Acts full L i p (c.replacement i) := by
    intro hI hM
    refine h.stalls ?_
    unfold Node.replacement Node.doTransition
    cases hst : c.getState with
    | I => exact absurd hst hI
    | M => exact absurd hst hM
    | II | MI | MII | IS | IM => rfl
  cases h with
  | idle he hq =>
    rename_i entry table queue
    refine ⟨⟨⟨none, none, table, queue, [], [], []⟩, [], []⟩, .idle, ?_, .idle (by simp) hq, .keep rfl⟩
    cases entry with
    | none => rfl
    | some e =>
      obtain ⟨st, d⟩ := e
      cases (he ⟨st, d⟩ rfl : st = .I)
      rfl
  | asking hm | fetching hm | waiting hm | arriving hm _ =>
    cases hm <;> exact hstall (by intro h; cases h) (by intro h; cases h)
  | holding hq hv =>
    exact ⟨_, .evicting _, rfl, .evicting hq hv, .keep rfl⟩
  | evicting _ _ | refused _ _ | written _ | acked _ | yielded _ | nacked _ =>
    exact hstall (by intro h; cases h) (by intro h; cases h)

/-- **A message of the directory**: to give the block on or back, or the answer to a writeback. -/
theorem forwarded (hne : c.forwards ≠ []) : Acts full L i p (c.forwardRequestNetwork i) := by
  have hstall : ∀ told : Told, c.forwards = told.msgs → c.getState = .IS ∨ c.getState = .IM →
      Acts full L i p (c.forwardRequestNetwork i) := by
    intro told hf hst
    refine h.stalls ?_
    unfold Node.forwardRequestNetwork Node.doTransition
    rw [hf] at hne ⊢
    cases told with
    | nothing => exact absurd rfl hne
    | give c | inv => rcases hst with hst | hst <;> rw [hst] <;> rfl
  cases h with
  | idle _ _ | asking _ | fetching _ | yielded _ => exact absurd rfl hne
  | waiting hm | arriving hm _ =>
    refine hstall _ rfl ?_
    cases hm
    · exact Or.inl rfl
    · exact Or.inl rfl
    · exact Or.inr rfl
  | holding hq hv =>
    rename_i told v table queue
    cases told with
    | nothing => exact absurd rfl hne
    | give c =>
      exact ⟨_, .idle, rfl, .idle (by intro e he; cases he; rfl) hq, .hand rfl rfl (Or.inl rfl) hv⟩
    | inv =>
      -- the message is left in the queue, to be seen once more after the writeback was sent
      exact ⟨_, .evicting .inv, rfl, .evicting hq hv, .keep rfl⟩
  | evicting hq hv =>
    rename_i told v table queue
    cases told with
    | nothing => exact absurd rfl hne
    | give c =>
      exact ⟨_, .yielded, rfl, .yielded hq, .hand rfl rfl (Or.inr (Or.inl rfl)) hv⟩
    | inv =>
      exact ⟨_, .evicting .nothing, rfl, .evicting hq hv, .seen rfl⟩
  | refused hq hv =>
    exact ⟨_, .nacked, rfl, .nacked hq, .hand rfl rfl (Or.inr (Or.inr rfl)) hv⟩
  | written hq =>
    rename_i told v table queue
    cases told with
    | false => exact absurd rfl hne
    | true =>
      exact ⟨_, .written false, rfl, .written hq, .keep rfl⟩
  | acked hq =>
    rename_i told v table queue
    cases told with
    | false => exact ⟨_, .idle, rfl, .idle (by simp) hq, .finish rfl⟩
    | true => exact ⟨_, .acked false, rfl, .acked hq, .keep rfl⟩
  | nacked hq =>
    exact ⟨_, .idle, rfl, .idle (by simp) hq, .finish rfl⟩

end

end Described

end NvpSim.Ruby.Mi
