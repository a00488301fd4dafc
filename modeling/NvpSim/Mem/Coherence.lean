/-
  Coherence of caches on one crossbar, in atomic mode.

  `Good` is about the marks: every line is `Exclusive`, whatever the requests are.  `Agrees` is about the
  values, and compares the caches and the memory with ONE flat memory, to which the same requests were applied.

  A block is found by its address AND its security attribute, but memory does not know about security: the
  lines `(a, true)` and `(a, false)` share their backing store and do not snoop each other.  So `Agrees` holds
  as long as each line is used with one attribute only (`read_after_insecure_write`).
-/
import NvpSim.Mem.Line

namespace NvpSim.Mem

open NvpSim.Lib Cache List

namespace System

variable {n : Nat} {p : CacheParams} {s s' : System n} {i : Fin n} {pkt : Packet} {k k' : Key}

/-! ## Lines other than the one requested -/

theorem replica_invalidate (b : CacheBlk) : replica p b.invalidate = (replica p b).dropped := rfl

variable {used : Option Key} {L : Line (Fin n) (Fin p.blkSize → Byte)}

section

variable (h : Outcome p s i k used L s')

include h

theorem Outcome.copy_of_ne (hk : k' ≠ k) (j : Fin n) : (line p s' k').copy j =
      (if used = some k' then (line p s k').evict i else line p s k').copy j := by
  by_cases hu : used = some k'
  · rw [if_pos hu]
    by_cases hj : j = i
    · subst hj
      show replica p (s'.caches j k') = _
      rw [(h.evicted k' hu).2.2, replica_invalidate]
      simp [Line.evict, line]
    · show replica p (s'.caches j k') = _
      rw [h.rest j k' hk (fun hji => absurd hji hj)]
      simp [Line.evict, line, hj]
  · rw [if_neg hu]
    show replica p (s'.caches j k') = _
    rw [h.rest j k' hk (fun _ => hu)]
    rfl

theorem Outcome.valid_of_ne (hk : k' ≠ k) {j : Fin n} (hv : (s'.caches j k').isValid = true) :
    s'.caches j k' = s.caches j k' := by
  by_cases hu : j = i ∧ used = some k'
  · obtain ⟨rfl, hu⟩ := hu
    rw [(h.evicted k' hu).2.2] at hv
    cases hv
  · exact h.rest j k' hk (fun hj hu' => hu ⟨hj, hu'⟩)

theorem Outcome.bytes_of_ne {a : Addr} (ha : a % p.blkSize = 0)
    (hused : ∀ v, used = some v → v.1 % p.blkSize = 0 ∧ v.1 ≠ a) {o : Nat} (ho : o < p.blkSize) :
    s'.mem.bytes (a + o) = s.mem.bytes (a + o) := by
  rw [h.bytes]
  cases used with
  | none => rfl
  | some v =>
    obtain ⟨hv, hne⟩ := hused v rfl
    show (if (s.caches i v).isDirty then _ else _ : Buffer Byte) (a + o) = _
    split
    · exact memcpy_of_notMem (aligned_disjoint ha hv (Ne.symm hne) ho)
    · rfl

theorem Outcome.line_of_ne (hk : k' ≠ k) (ha : k'.1 % p.blkSize = 0)
    (hused : ∀ v, used = some v → v.1 % p.blkSize = 0 ∧ (v.1 = k'.1 → v = k')) :
    line p s' k' = if used = some k' then (line p s k').evict i else line p s k' := by
  refine Line.ext (funext fun j => h.copy_of_ne hk j) ?_
  funext o
  by_cases hu : used = some k'
  · rw [if_pos hu]
    show s'.mem.bytes (k'.1 + o) = (if (s.caches i k').isDirty then
      fun o : Fin p.blkSize => (s.caches i k').data o
      else fun o : Fin p.blkSize => s.mem.bytes (k'.1 + o)) o
    rw [h.bytes, hu, evictedBytes]
    split
    · rw [memcpy_of_mem (Nat.le_add_right _ _) (Nat.add_lt_add_left o.isLt _), Nat.add_sub_cancel_left, Nat.zero_add]
    · rfl
  · rw [if_neg hu]
    refine h.bytes_of_ne ha (fun v hv => ?_) o.isLt
    obtain ⟨hal, hsame⟩ := hused v hv
    refine ⟨hal, fun heq => hu ?_⟩
    rw [hv, hsame heq]

end

/-! ## The marks -/

/-- Every line is exclusive, and every block is readable, aligned and backed by the memory. -/
structure Good (p : CacheParams) (s : System n) : Prop where
  lines : ∀ k, (line p s k).Exclusive
  readable : ∀ j k, (s.caches j k).isValid = true → (s.caches j k).isReadable = true
  placed : ∀ j k, (s.caches j k).isValid = true → k.1 % p.blkSize = 0 ∧ InMem p s.mem k.1
  real : s.mem.isNull = false

/-- A request of the CPU to the cache at `port`, and the victim that the replacement policy has for
    it. -/
structure PortRequest (n : Nat) where
  port : Fin n
  pkt : Packet
  victim : Option Key

/-- A request the CPU may send: its line is in the memory, and the victim is a block of the
    cache. -/
structure Legal (p : CacheParams) (s : System n) (r : PortRequest n) : Prop where
  request : CpuRequest p r.pkt
  inMem : InMem p s.mem (r.pkt.key p.blkSize).1
  victim : ∀ v ∈ r.victim, (s.caches r.port v).isValid = true

instance (p : CacheParams) (pkt : Packet) : Decidable (CpuRequest p pkt) :=
  decidable_of_iff (pkt.cmd ∈ [MemCmd.readReq, .writeReq, .swapReq] ∧ pkt.req.isUncacheable = false ∧
      (pkt.req.paddr = pkt.addr ∧ pkt.req.isSecure = pkt.isSecure) ∧ pkt.getOffset p.blkSize + pkt.size ≤ p.blkSize ∧
      (pkt.cmd = .swapReq → pkt.size ≤ 8 ∧ (pkt.req.isCondSwap = true → pkt.size = 8 ∨ pkt.size = 4)) ∧
      (pkt.sharedAsserted = false ∧ pkt.memInhibitAsserted = false))
    ⟨fun ⟨h₁, h₂, h₃, h₄, h₅, h₆⟩ => ⟨h₁, h₂, h₃, h₄, h₅, h₆⟩,
      fun h => ⟨h.cmd, h.cacheable, h.req, h.fits, h.swapSize, h.fresh⟩⟩

instance (p : CacheParams) (m : AbstractMemory) (a : Addr) : Decidable (InMem p m a) :=
  inferInstanceAs (Decidable (_ ∧ _))

instance (p : CacheParams) (s : System n) (r : PortRequest n) : Decidable (Legal p s r) :=
  decidable_of_iff (CpuRequest p r.pkt ∧ InMem p s.mem (r.pkt.key p.blkSize).1 ∧
      ∀ v ∈ r.victim, (s.caches r.port v).isValid = true)
    ⟨fun ⟨h₁, h₂, h₃⟩ => ⟨h₁, h₂, h₃⟩, fun h => ⟨h.request, h.inMem, h.victim⟩⟩

/-- Serve a request. -/
def serve (p : CacheParams) (s : System n) (r : PortRequest n) : Option (System n) :=
  (cacheRecvAtomic p s r.port r.pkt r.victim).map fun result => result.1

variable {r : PortRequest n}

/-- **Every legal request is a transition of its line.** -/
theorem Good.request (h : Good p s) (htop : p.isTopLevel = true) (hr : Legal p s r) :
    ∃ s' q L used, (used = none ∨ used = r.victim) ∧
      cacheRecvAtomic p s r.port r.pkt r.victim = some (s', q) ∧ q.cmd.isResponse = true ∧
      Transition p s r.port r.pkt used L s' q :=
  request_spec hr.request htop ⟨h.lines _, fun j => h.readable j _⟩ hr.inMem h.real
    fun v hv => ⟨hr.victim v hv, (h.placed _ _ (hr.victim v hv)).2⟩

theorem Good.transition (h : Good p s) {q : Packet} (hmem : InMem p s.mem (pkt.key p.blkSize).1)
    (ht : Transition p s i pkt used L s' q) : Good p s' := by
  have hout := ht.outcome
  refine ⟨fun k => ?_, fun j k hv => ?_, fun j k hv => ?_, hout.config.2.2.trans h.real⟩
  · by_cases hk : k = pkt.key p.blkSize
    · rw [hk]
      exact ht.marks.of_copy_eq hout.copies
    · have hx : (if used = some k then (line p s k).evict i else line p s k).Exclusive := by
        split
        · exact (h.lines k).evict i
        · exact h.lines k
      exact hx.of_copy_eq (hout.copy_of_ne hk)
  · by_cases hk : k = pkt.key p.blkSize
    · subst hk
      exact hout.readable j hv
    · have hsame := hout.valid_of_ne hk hv
      rw [hsame] at hv ⊢
      exact h.readable j k hv
  · by_cases hk : k = pkt.key p.blkSize
    · rw [hk]
      exact ⟨blockAlign_mod _ _, hout.config.inMem hmem⟩
    · rw [hout.valid_of_ne hk hv] at hv
      exact (h.placed j k hv).imp_right hout.config.inMem

/-- The system before the first request. -/
def initial (n : Nat) (m : AbstractMemory) : System n := ⟨fun _ => Cache.empty, m⟩

theorem good_initial {m : AbstractMemory} (hnull : m.isNull = false) : Good p (initial n m) where
  lines := fun _ => ⟨nofun, nofun, nofun, nofun⟩
  readable := nofun
  placed := nofun
  real := hnull

/-! ## The values -/

/-- The caches over the memory hold the bytes of a flat memory, where `sec` says with which
    attribute each line is used. -/
structure Agrees (p : CacheParams) (sec : Addr → Bool) (flat : Buffer Byte) (s : System n) :
    Prop where
  spaces : ∀ j k, (s.caches j k).isValid = true → k.2 = sec k.1
  values : ∀ a, a % p.blkSize = 0 → (line p s (a, sec a)).Holds (lineOf p flat a)

variable {sec : Addr → Bool} {flat : Buffer Byte}

theorem specStep_of_ne (h : CpuRequest p pkt) {a : Addr} (ha : a % p.blkSize = 0)
    (hne : a ≠ (pkt.key p.blkSize).1) {o : Nat} (ho : o < p.blkSize) : specStep flat pkt (a + o) = flat (a + o) := by
  have hstore : memcpy flat pkt.addr pkt.data 0 pkt.size (a + o) = flat (a + o) := by
    refine memcpy_of_notMem ?_
    have hfits := h.fits
    have haddr := key_add_offset pkt p.blkSize
    rcases aligned_disjoint ha (blockAlign_mod _ pkt.addr) hne ho with hlt | hge
    · left
      rw [← haddr]
      exact Nat.lt_of_lt_of_le hlt (Nat.le_add_right _ _)
    · right
      rw [← haddr, Nat.add_assoc]
      exact Nat.le_trans (Nat.add_le_add_left hfits _) hge
  unfold specStep
  split
  · split
    · exact hstore
    · rfl
  · split
    · exact hstore
    · rfl

theorem Agrees.transition (h : Agrees p sec flat s) (hgood : Good p s) (hreq : CpuRequest p pkt)
    (hsec : pkt.isSecure = sec (pkt.key p.blkSize).1) {q : Packet}
    (ht : Transition p s i pkt used L s' q) : Agrees p sec (specStep flat pkt) s' := by
  have hout := ht.outcome
  have hkey : pkt.key p.blkSize = ((pkt.key p.blkSize).1, sec (pkt.key p.blkSize).1) :=
    Prod.ext rfl hsec
  have hvictim : ∀ v, used = some v → v.1 % p.blkSize = 0 ∧ v ≠ pkt.key p.blkSize ∧ v = (v.1, sec v.1) := by
    intro v hv
    obtain ⟨hne, hvalid, -⟩ := hout.evicted v hv
    exact ⟨(hgood.placed _ _ hvalid).1, hne, Prod.ext rfl (h.spaces _ _ hvalid)⟩
  refine ⟨fun j k hv => ?_, fun a ha => ?_⟩
  · by_cases hk : k = pkt.key p.blkSize
    · rw [hk]; exact hsec
    · rw [hout.valid_of_ne hk hv] at hv
      exact h.spaces j k hv
  · by_cases hk : a = (pkt.key p.blkSize).1
    · -- the requested line: the victim is elsewhere, so memory backs it as before
      subst hk
      rw [← hkey]
      have hline : line p s' (pkt.key p.blkSize) = L := by
        refine Line.ext (funext hout.copies) ?_
        rw [ht.backing]
        funext o
        refine hout.bytes_of_ne ha (fun v hv => ?_) o.isLt
        obtain ⟨hal, hne, hveq⟩ := hvictim v hv
        refine ⟨hal, fun heq => hne ?_⟩
        rw [hveq, heq]
        exact hkey.symm
      rw [hline]
      exact ht.values flat (by rw [hkey]; exact h.values _ ha)
    · -- another line: at most evicted
      have hne : (a, sec a) ≠ pkt.key p.blkSize := fun heq => hk (congrArg Prod.fst heq)
      have hflat : lineOf p (specStep flat pkt) a = lineOf p flat a :=
        funext fun o => specStep_of_ne hreq ha hk o.isLt
      have hline := hout.line_of_ne hne ha fun v hv => by
        obtain ⟨hal, -, hveq⟩ := hvictim v hv
        refine ⟨hal, fun heq => ?_⟩
        rw [hveq, show v.1 = a from heq]
      have hold := h.values a ha
      rw [hflat, hline]
      split
      · exact hold.evict (hgood.lines _) i
      · exact hold

/-! ## Runs -/

/-- A flat memory after a list of requests. -/
def served (flat : Buffer Byte) (reqs : List (PortRequest n)) : Buffer Byte :=
  reqs.foldl (fun flat r => specStep flat r.pkt) flat

/-- Every request of a list uses its line with the attribute that `sec` says. -/
def Separate (p : CacheParams) (sec : Addr → Bool) (reqs : List (PortRequest n)) : Prop :=
  ∀ r ∈ reqs, r.pkt.isSecure = sec (r.pkt.key p.blkSize).1

theorem agrees_initial (m : AbstractMemory) (sec : Addr → Bool) : Agrees p sec m.bytes (initial n m) where
  spaces := nofun
  values := fun _ _ => ⟨nofun, fun _ => rfl⟩

theorem run_coherent (htop : p.isTopLevel = true) {m : AbstractMemory} (hnull : m.isNull = false)
    {reqs : List (PortRequest n)} (h : Run (Guarded (stepOf (serve p)) (Legal p)) (initial n m) reqs s) :
    Good p s ∧ ∀ sec, Separate p sec reqs → Agrees p sec (served m.bytes reqs) s := by
  refine h.inv_hist (P := fun reqs s =>
    Good p s ∧ ∀ sec, Separate p sec reqs → Agrees p sec (served m.bytes reqs) s) ?_
    ⟨good_initial hnull, fun sec _ => agrees_initial m sec⟩
  rintro reqs s r s' ⟨hgood, hagrees⟩ ⟨hserve, hlegal⟩
  obtain ⟨s₁, q, L, used, -, hrecv, -, ht⟩ := hgood.request htop hlegal
  obtain rfl : s₁ = s' := by
    unfold stepOf serve at hserve
    rw [hrecv] at hserve
    exact Option.some.inj hserve
  refine ⟨hgood.transition hlegal.inMem ht, fun sec hsec => ?_⟩
  have hsec' : Separate p sec reqs := fun r' hr' => hsec r' (mem_append_left _ hr')
  have hstep := (hagrees sec hsec').transition hgood hlegal.request
    (hsec r (mem_append_right _ (mem_singleton_self r))) ht
  show Agrees p sec (foldl _ _ (reqs ++ [r])) s₁
  rw [foldl_append]
  exact hstep

/-- **Coherence in atomic mode.**  After any legal requests from empty caches, a writable copy is the
    only valid one, at most one copy is dirty, and the next request gets its response.  If every
    line was used with one security attribute only, valid copies of a block are equal and a read
    with that attribute returns the most recently written bytes. -/
theorem coherent_atomic (htop : p.isTopLevel = true) {m : AbstractMemory}
    (hnull : m.isNull = false) {reqs : List (PortRequest n)}
    (h : Run (Guarded (stepOf (serve p)) (Legal p)) (initial n m) reqs s) :
    (∀ k i j, (s.caches i k).isWritable = true → (s.caches j k).isValid = true → j = i) ∧
    (∀ k i j, (s.caches i k).isDirty = true → (s.caches j k).isDirty = true → j = i) ∧
    (∀ r, Legal p s r → ∃ s' q, cacheRecvAtomic p s r.port r.pkt r.victim = some (s', q) ∧ q.cmd.isResponse = true) ∧
    ∀ sec, Separate p sec reqs → (∀ k i j, (s.caches i k).isValid = true → (s.caches j k).isValid = true →
        ∀ o, o < p.blkSize → (s.caches i k).data o = (s.caches j k).data o) ∧
      ∀ r s' q, Legal p s r → Separate p sec [r] → r.pkt.cmd.isRead = true →
        cacheRecvAtomic p s r.port r.pkt r.victim = some (s', q) →
        ∀ o, o < r.pkt.size → q.data o = served m.bytes reqs (r.pkt.addr + o) := by
  obtain ⟨hgood, hagrees⟩ := run_coherent htop hnull h
  refine ⟨fun k i j => (hgood.lines k).sole i j, fun k i j => (hgood.lines k).owner i j,
    fun r hr => ?_, fun sec hsec => ⟨fun k i j hi hj o ho => ?_, fun r s' q hr hsep hread hrecv => ?_⟩⟩
  · obtain ⟨s', q, L, used, -, hrecv, hresp, -⟩ := hgood.request htop hr
    exact ⟨s', q, hrecv, hresp⟩
  · have hsp := hagrees sec hsec
    have hk : k = (k.1, sec k.1) := Prod.ext rfl (hsp.spaces i k hi)
    have hvals := hsp.values k.1 (hgood.placed i k hi).1
    rw [← hk] at hvals
    exact (agreesAt_of_holds hvals hi o ho).trans (agreesAt_of_holds hvals hj o ho).symm
  · obtain ⟨s₁, q₁, L, used, -, hrecv₁, -, ht⟩ := hgood.request htop hr
    obtain ⟨rfl, rfl⟩ : s₁ = s' ∧ q₁ = q := by
      rw [hrecv] at hrecv₁
      exact ⟨(congrArg Prod.fst (Option.some.inj hrecv₁)).symm, (congrArg Prod.snd (Option.some.inj hrecv₁)).symm⟩
    have hkey : r.pkt.key p.blkSize = ((r.pkt.key p.blkSize).1, sec (r.pkt.key p.blkSize).1) :=
      Prod.ext rfl (hsep r (mem_singleton_self r))
    have hvals := (hagrees sec hsec).values (r.pkt.key p.blkSize).1 (blockAlign_mod _ _)
    rw [← hkey] at hvals
    intro o ho
    have hfits := hr.request.fits
    have hbyte := holds_byteLine (o := r.pkt.getOffset p.blkSize + o) hvals (by omega)
    rw [(ht.read hread o ho).eq (hgood.lines _) hbyte, ← Nat.add_assoc, key_add_offset]

/-- Two 16-byte-line caches of CPUs. -/
def demoCaches : CacheParams := ⟨16, true⟩

/-- An 8-byte request at address 0 in the secure or the non-secure space. -/
def demoAccess (port : Fin 2) (cmd : MemCmd) (secure : Bool) (v : Nat) : PortRequest 2 :=
  ⟨port, Packet.ofRequest ⟨0, 8, 0, 0, false, false, false, secure, false⟩ cmd (bytesOf v), none⟩

/-- 64 bytes of zeroes. -/
def zeroes : AbstractMemory := ⟨0, 63, false, fun _ => 0, []⟩

/-- `coherent_atomic` after a write: the other CPU reads what was written. -/
theorem coherent_atomic_read_back : ∃ s s' q, exec (guardFn (serve demoCaches) (Legal demoCaches)) (initial 2 zeroes)
        [demoAccess 0 .writeReq false 7] = some s ∧
      cacheRecvAtomic demoCaches s 1 (demoAccess 1 .readReq false 0).pkt none = some (s', q) ∧ q.data 0 = 7 := by
  have hrun : (exec (guardFn (serve demoCaches) (Legal demoCaches)) (initial 2 zeroes)
      [demoAccess 0 .writeReq false 7]).map
        (fun s => decide (Legal demoCaches s (demoAccess 1 .readReq false 0))) = some true := by
    decide +kernel
  obtain ⟨s, hs, hlegal⟩ := Option.map_eq_some_iff.mp hrun
  obtain ⟨-, -, hdone, hvals⟩ := coherent_atomic rfl rfl (exec_guardFn_iff.mp hs)
  obtain ⟨s', q, hrecv, -⟩ := hdone _ (of_decide_eq_true hlegal)
  have hsep : Separate demoCaches (fun _ => false) [demoAccess 0 .writeReq false 7] := by
    intro r hr
    rw [mem_singleton.mp hr]
    rfl
  have hsep' : Separate demoCaches (fun _ => false) [demoAccess 1 .readReq false 0] := by
    intro r hr
    rw [mem_singleton.mp hr]
    rfl
  refine ⟨s, s', q, hs, hrecv, ?_⟩
  rw [(hvals _ hsep).2 _ s' q (of_decide_eq_true hlegal) hsep' rfl hrecv 0 (by decide)]
  decide +kernel

/-- **A stale read**: one CPU writes 7 to the non-secure line 0, the other reads the secure line 0
    and gets the 0 of the memory. -/
theorem read_after_insecure_write : ∃ s s' q, exec (guardFn (serve demoCaches) (Legal demoCaches)) (initial 2 zeroes)
        [demoAccess 0 .writeReq false 7] = some s ∧ Legal demoCaches s (demoAccess 1 .readReq true 0) ∧
      cacheRecvAtomic demoCaches s 1 (demoAccess 1 .readReq true 0).pkt none = some (s', q) ∧
      q.data 0 = 0 ∧ served zeroes.bytes [demoAccess 0 .writeReq false 7] 0 = 7 := by
  have hrun : ((exec (guardFn (serve demoCaches) (Legal demoCaches)) (initial 2 zeroes)
      [demoAccess 0 .writeReq false 7]).bind fun s =>
        (cacheRecvAtomic demoCaches s 1 (demoAccess 1 .readReq true 0).pkt none).map fun r =>
          (decide (Legal demoCaches s (demoAccess 1 .readReq true 0)), r.2.data 0)) =
      some (true, 0) := by decide +kernel
  obtain ⟨s, hs, hread⟩ := Option.bind_eq_some_iff.mp hrun
  obtain ⟨⟨s', q⟩, hrecv, hobs⟩ := Option.map_eq_some_iff.mp hread
  simp only [Prod.mk.injEq, decide_eq_true_eq] at hobs
  exact ⟨s, s', q, hs, hobs.1, hrecv, hobs.2, by decide +kernel⟩

end System

end NvpSim.Mem
