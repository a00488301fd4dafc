/-
  A cacheable request of one cache, as a transition of the line it is about.

  Each key — a line address with a security attribute — is one replicated line (`NvpSim.Lib.Line`): the blocks
  of the caches are its copies and the memory backs it.  A request changes the line of its packet and evicts at
  most one other block (`Outcome`): a read that hits changes nothing, a read that misses is `readBy`, a request
  that needs exclusivity is `ownedBy`.
-/
import NvpSim.Lib.Replica
import NvpSim.Mem.Requests

namespace NvpSim.Mem

open NvpSim.Lib Cache Option Function

namespace System

variable {n : Nat} {p : CacheParams} {s s' : System n} {i : Fin n} {pkt : Packet} {k : Key}

/-! ## Lines -/

/-- The block that cache `j` has for the line of a packet. -/
abbrev held (p : CacheParams) (s : System n) (pkt : Packet) (j : Fin n) : CacheBlk :=
  s.caches j (pkt.key p.blkSize)

/-- The copy of a line in a block. -/
def replica (p : CacheParams) (b : CacheBlk) : Replica (Fin p.blkSize → Byte) :=
  ⟨b.isValid, b.isWritable, b.isDirty, fun o => b.data o⟩

/-- The line of a key: the blocks of the caches over the memory. -/
def line (p : CacheParams) (s : System n) (k : Key) : Line (Fin n) (Fin p.blkSize → Byte) :=
  ⟨fun j => replica p (s.caches j k), fun o => s.mem.bytes (k.1 + o)⟩

/-- The bytes of a flat memory at a line. -/
def lineOf (p : CacheParams) (flat : Buffer Byte) (a : Addr) : Fin p.blkSize → Byte :=
  fun o => flat (a + o)

/-- A line in order: it is exclusive, and its valid copies can be read. -/
structure Orderly (p : CacheParams) (s : System n) (k : Key) : Prop where
  marks : (line p s k).Exclusive
  readable : ∀ j, (s.caches j k).isValid = true → (s.caches j k).isReadable = true

variable {flat : Buffer Byte} {b b' : CacheBlk} {o : Nat} {bus q : Packet} {victim : Option Key}
  {L : Line (Fin n) (Fin p.blkSize → Byte)}

/-- A block agrees with a flat memory exactly if its replica has the line. -/
theorem agreesAt_iff {a : Addr} : AgreesAt p flat a b ↔ (replica p b).data = lineOf p flat a := by
  constructor
  · intro h
    funext o
    exact h o o.isLt
  · intro h o ho
    exact congrFun h ⟨o, ho⟩

/-- One byte of a line. -/
def byteLine (s : System n) (k : Key) (o : Nat) : Line (Fin n) Byte :=
  ⟨fun j => ⟨(s.caches j k).isValid, (s.caches j k).isWritable, (s.caches j k).isDirty,
    (s.caches j k).data o⟩, s.mem.bytes (k.1 + o)⟩

/-- Exclusive as a line, exclusive byte by byte. -/
theorem exclusive_byteLine (h : (line p s k).Exclusive) (o : Nat) : (byteLine s k o).Exclusive :=
  ⟨h.valid_of_writable, h.valid_of_dirty, h.sole, h.owner⟩

/-- A line that holds a value holds its bytes. -/
theorem holds_byteLine (h : (line p s k).Holds (lineOf p flat k.1)) (ho : o < p.blkSize) :
    (byteLine s k o).Holds (flat (k.1 + o)) where
  copies := fun j hj => congrFun (h.copies j hj) ⟨o, ho⟩
  backing := fun hclean => congrFun (h.backing hclean) ⟨o, ho⟩

/-- In an exclusive line at most one cache answers a snoop. -/
theorem oneAnswer (h : BlockRequest p bus) (hx : (line p s (bus.key p.blkSize)).Exclusive) (src : Option (Fin n)) :
    OneAnswer p s bus src := by
  intro j l _ _ hj hl
  exact hx.owner j l ((h.answers_iff _).mp hj).2.1 ((h.answers_iff _).mp hl).2.1

/-- **A read is snooped**: writable copies are demoted. -/
theorem replica_snoop_read (h : BlockRequest p bus) (hcmd : bus.cmd = .readReq) (b : CacheBlk) :
    replica p (bus.snoopBlk b) = (replica p b).demoted := by
  have hshares := h.shares_iff.mpr hcmd
  have hinv : bus.cmd.isInvalidate = false := by rw [hcmd]; rfl
  unfold Packet.snoopBlk
  cases hv : b.isValid with
  | true =>
    simp only [hshares, hinv, if_true, Bool.false_eq_true, if_false]
    simp [replica, Replica.demoted, CacheBlk.isWritable, CacheBlk.isValid, CacheBlk.isDirty]
  | false =>
    have hw : b.isWritable = false := by
      unfold CacheBlk.isWritable CacheBlk.isValid at *
      simp [hv]
    simp [replica, Replica.demoted, hw]

/-- **A request for ownership is snooped**: the copies are dropped. -/
theorem replica_snoop_own (h : BlockRequest p bus) (hcmd : bus.cmd ≠ .readReq)
    (hb : b.isDirty = true → b.isValid = true) : replica p (bus.snoopBlk b) = (replica p b).dropped := by
  have hinv : bus.cmd.isInvalidate = true := by
    rcases h.cases with hc | hc | hc | hc
    · exact absurd hc hcmd
    all_goals rw [hc]; rfl
  have hshares : bus.shares = false := by
    by_contra hs
    exact hcmd (h.shares_iff.mp (by simpa using hs))
  unfold Packet.snoopBlk
  cases hv : b.isValid with
  | true =>
    simp only [hshares, hinv, if_true, Bool.false_eq_true, if_false]
    simp [replica, Replica.dropped, CacheBlk.isWritable, CacheBlk.isValid, CacheBlk.isDirty, CacheBlk.invalidate]
  | false =>
    have hd : b.isDirty = false := mark_false hb hv
    have hw : b.isWritable = false := by
      unfold CacheBlk.isWritable CacheBlk.isValid at *
      simp [hv]
    exact (Replica.dropped_eq (r := replica p b) hv hw hd).symm

theorem readable_snoop (bus : Packet) (hb : b.isValid = true → b.isReadable = true)
    (h : (bus.snoopBlk b).isValid = true) : (bus.snoopBlk b).isReadable = true := by
  unfold Packet.snoopBlk at h ⊢
  cases hv : b.isValid with
  | false => simp [hv] at h
  | true =>
    have hr := hb hv
    simp only [hv, if_true] at h ⊢
    cases hinv : bus.cmd.isInvalidate with
    | true =>
      simp [hinv, CacheBlk.invalidate, CacheBlk.isValid] at h
    | false =>
      simp only [Bool.false_eq_true, if_false]
      split
      · exact hr
      · exact hr

/-! ## The miss path -/

/-- The packet that a miss sends out. -/
def busOf (p : CacheParams) (pkt : Packet) (b : CacheBlk) : Packet :=
  Packet.ofBlock pkt.req (busCmd pkt b.isValid) p.blkSize

theorem blockAlign_mod (blkSize : Nat) (a : Addr) : blockAlign blkSize a % blkSize = 0 :=
  Nat.sub_mod_eq_zero_of_mod_eq (Nat.mod_mod a blkSize).symm

/-- Which command goes to the bus. -/
theorem busCmd_eq (h : LineRequest p pkt) (valid : Bool) : busCmd pkt valid =
      if valid then .upgradeReq
      else if pkt.cmd = .writeInvalidateReq then .writeInvalidateReq
      else if pkt.cmd = .readReq then .readReq
      else .readExReq := by
  unfold busCmd
  rcases h.cases with hc | hc | hc | hc <;> rw [hc] <;> cases valid <;> rfl

/-- What goes to the bus is a request for the block. -/
theorem busOf_request (h : LineRequest p pkt) (b : CacheBlk) : BlockRequest p (busOf p pkt b) where
  cmd := by
    show busCmd pkt b.isValid ∈ _
    rw [busCmd_eq h]
    split
    · decide
    · split
      · decide
      · split <;> decide
  cacheable := h.cacheable
  aligned := blockAlign_mod _ _
  size := rfl
  fresh := ⟨rfl, rfl⟩

/-- It is for the line of the CPU's request. -/
theorem busOf_key (h : LineRequest p pkt) (b : CacheBlk) : (busOf p pkt b).addr = (pkt.key p.blkSize).1 ∧
      (busOf p pkt b).isSecure = (pkt.key p.blkSize).2 ∧ (busOf p pkt b).key p.blkSize = pkt.key p.blkSize := by
  have haddr : (busOf p pkt b).addr = (pkt.key p.blkSize).1 := by
    show blockAlign p.blkSize pkt.req.paddr = _
    rw [h.req.1]
    rfl
  refine ⟨haddr, h.req.2, ?_⟩
  rw [(busOf_request h b).key_eq, haddr]
  exact Prod.ext rfl h.req.2

/-- A request misses if the block is not there, or is there without the right to write it. -/
def Misses (pkt : Packet) (b : CacheBlk) : Prop :=
  b.isValid = true → pkt.cmd.needsExclusive = true ∧ b.isWritable = false

/-- **A miss** goes to the bus. -/
theorem getBusPacket_eq (h : LineRequest p pkt) (hmiss : Misses pkt b) :
    getBusPacket p pkt b = some (some (busOf p pkt b)) := by
  have hcmd := h.attributes
  unfold getBusPacket
  rw [h.cacheable, if_neg (by simp), if_neg (by simp [hcmd.2.2.1, hcmd.2.2.2.1]), hcmd.2.1,
    if_neg (by simp), if_neg, h.fresh.1]
  · rfl
  · rintro ⟨hv, hbad⟩
    obtain ⟨hne, hw⟩ := hmiss hv
    rw [hne, hw] at hbad
    simp at hbad

/-- The packet that fills the block: the request itself for a whole-line write, and otherwise the
    response. -/
def fillOf (pkt bus' : Packet) : Packet := if pkt.cmd = .writeInvalidateReq then pkt else bus'

theorem fillOf_fits (h : LineRequest p pkt) {bus' : Packet} {valid : Bool}
    (hcmd : bus'.cmd = (busCmd pkt valid).responseCommand) (hsize : bus'.size = p.blkSize) :
    (((fillOf pkt bus').cmd.isResponse = true ∨ (fillOf pkt bus').cmd.isWriteInvalidate = true) ∧
      ((fillOf pkt bus').cmd.isRead = true →
        (fillOf pkt bus').cmd.hasData = true ∧ (fillOf pkt bus').size = p.blkSize)) ∧
    (valid = false → (fillOf pkt bus').cmd.hasData = true ∧
      ((fillOf pkt bus').cmd.isRead = true ∨ (fillOf pkt bus').cmd.isWriteInvalidate = true)) ∧
    ∀ (s : System n) (i : Fin n) (victim : Option Key), p.isTopLevel = true → handleResponse p s i pkt bus' victim =
        fillAndSatisfy p s i (fillOf pkt bus') pkt victim := by
  rw [busCmd_eq h] at hcmd
  have hneeds := h.attributes.2.1
  by_cases hwi : pkt.cmd = .writeInvalidateReq
  · have hresp : bus'.cmd.isResponse = true ∧ bus'.cmd.isError = false := by
      rw [hcmd, if_pos hwi]
      cases valid <;> decide
    have hfill : fillOf pkt bus' = pkt := if_pos hwi
    rw [hfill, hwi]
    refine ⟨⟨Or.inr rfl, nofun⟩, fun _ => by decide, fun s i victim htop => ?_⟩
    unfold handleResponse
    rw [hneeds, if_neg (by simp), hresp.1, if_neg (by simp), hresp.2, if_neg (by simp), hwi,
      if_pos (by decide), htop, if_pos rfl]
  · have hfill : fillOf pkt bus' = bus' := if_neg hwi
    rw [if_neg hwi] at hcmd
    have hresp : bus'.cmd.isResponse = true ∧ bus'.cmd.isError = false ∧
        (bus'.cmd.isRead = true → bus'.cmd.hasData = true) ∧ (bus'.cmd.isRead = true ∨ bus'.cmd = .upgradeResp) ∧
        (valid = false → bus'.cmd.isRead = true) := by
      rw [hcmd]
      cases valid
      · rw [if_neg (by simp)]
        split <;> decide
      · rw [if_pos rfl]
        decide
    have hnwi : pkt.cmd.isWriteInvalidate = false := by
      rcases h.cases with hc | hc | hc | hc
      · rw [hc]; rfl
      · rw [hc]; rfl
      · rw [hc]; rfl
      · exact absurd hc hwi
    rw [hfill]
    refine ⟨⟨Or.inl hresp.1, fun hr => ⟨hresp.2.2.1 hr, hsize⟩⟩, fun hv => ?_, fun s i victim _ => ?_⟩
    · have hr := hresp.2.2.2.2 hv
      exact ⟨hresp.2.2.1 hr, Or.inl hr⟩
    · unfold handleResponse
      rw [hneeds, if_neg (by simp), hresp.1, if_neg (by simp), hresp.2.1, if_neg (by simp), hnwi,
        if_neg (by simp), if_pos hresp.2.2.2.1]

/-- **A miss**: the others are snooped, the block is filled, and the request is satisfied. -/
theorem handleMiss_spec (h : LineRequest p pkt) (htop : p.isTopLevel = true)
    (hx : (line p s (pkt.key p.blkSize)).Exclusive) (hmiss : Misses pkt (held p s pkt i))
    (hmem : InMem p s.mem (pkt.key p.blkSize).1) (hnull : s.mem.isNull = false) (hvictim : VictimOk p s i victim) :
    ∃ s₁ bus', BlockResult p s (busOf p pkt (held p s pkt i)) i s₁ bus' ∧
      ∀ b' q, satisfyCpuSideRequest p pkt (fillBlk p (fillOf pkt bus')
          (startBlk (s.caches i) (pkt.key p.blkSize))) false false = some (b', q) →
        q.key p.blkSize = pkt.key p.blkSize → ∃ s', handleMiss p s i pkt victim = some (s', q) ∧
          Filled p s s₁ i (pkt.key p.blkSize) (usedVictim (s.caches i) (pkt.key p.blkSize) victim) b' s' := by
  set b := s.caches i (pkt.key p.blkSize) with hb
  have hreq := busOf_request h b
  obtain ⟨haddr, hsec, hkey⟩ := busOf_key h b
  obtain ⟨s₁, bus', hbus, hres⟩ := recvAtomic_block (i := i) hreq
    (oneAnswer hreq (hkey ▸ hx) (some i)) (haddr ▸ hmem) hnull
  refine ⟨s₁, bus', hres, fun b' q hsat hq => ?_⟩
  -- the response has the key of the request, and its command fits
  have hkey' : bus'.key p.blkSize = pkt.key p.blkSize := by
    rw [← hkey, Packet.key, Packet.key, hres.same.1, hres.same.2.1]
  have hcmd' : bus'.cmd = (busCmd pkt b.isValid).responseCommand := hres.cmd
  have hvictim' : VictimOk p s₁ i victim := by
    intro v hv
    rw [hres.self, hres.mem]
    exact hvictim v hv
  have hfit := fillOf_fits (n := n) h hcmd' hres.same.2.2
  have hsat' : satisfyCpuSideRequest p pkt (fillBlk p (fillOf pkt bus')
      (startBlk (s₁.caches i) (pkt.key p.blkSize))) false false = some (b', q) := by
    rw [hres.self]
    exact hsat
  obtain ⟨s', hfill, hcaches, hbytes, hcfg⟩ := fillAndSatisfy_spec
    (by unfold fillOf; split <;> [rfl; exact hkey']) hfit.1
    (fun hv => hfit.2.1 (by rw [hb, ← hres.self]; exact hv)) hsat' hq hvictim' (by rw [hres.mem]; exact hnull)
  rw [hres.self] at hcaches hbytes
  rw [hres.mem] at hbytes hcfg
  refine ⟨s', ?_, hcaches, hbytes, hcfg⟩
  unfold handleMiss
  rw [getBusPacket_eq h hmiss]
  show (recvAtomic p s (busOf p pkt b) (some i)).bind _ = _
  rw [hbus]
  exact (hfit.2.2 s₁ i victim htop).trans hfill

/-- The marks of a block that has been filled. -/
theorem fillBlk_marks (p : CacheParams) (fp : Packet) (b : CacheBlk) :
    (fillBlk p fp b).valid = true ∧ (fillBlk p fp b).readable = true ∧
      (fillBlk p fp b).writable = (b.writable || !fp.sharedAsserted) ∧
      (fillBlk p fp b).dirty = (b.dirty || (!fp.sharedAsserted && fp.memInhibitAsserted)) ∧ (fillBlk p fp b).data =
        if fp.cmd.isRead then memcpy b.data 0 fp.data 0 p.blkSize else b.data := by
  unfold fillBlk
  cases fp.sharedAsserted <;> cases fp.cmd.isRead <;> simp

/-! ## One request -/

/-- What a request of cache `i` for the line of key `k` leaves: the line is `L`, the victim is gone
    and written back, and everything else is as it was. -/
structure Outcome (p : CacheParams) (s : System n) (i : Fin n) (k : Key) (victim : Option Key)
    (L : Line (Fin n) (Fin p.blkSize → Byte)) (s' : System n) : Prop where
  config : SameConfig s.mem s'.mem
  copies : ∀ j, replica p (s'.caches j k) = L.copy j
  readable : ∀ j, (s'.caches j k).isValid = true → (s'.caches j k).isReadable = true
  evicted : ∀ v, victim = some v → v ≠ k ∧ (s.caches i v).isValid = true ∧ s'.caches i v = (s.caches i v).invalidate
  rest : ∀ j k', k' ≠ k → (j = i → victim ≠ some k') → s'.caches j k' = s.caches j k'
  bytes : s'.mem.bytes = evictedBytes p s.mem.bytes (s.caches i) victim

/-- **A hit**: only the block that was hit changes. -/
theorem outcome_of_setBlk (hline : Orderly p s k) (hb' : b'.isReadable = true) :
    Outcome p s i k none ((line p s k).setCopy i (replica p b')) (s.setCache i (update (s.caches i) k b')) where
  config := ⟨rfl, rfl, rfl⟩
  copies := by
    intro j
    by_cases hj : j = i
    · subst hj; simp [setCache, Line.setCopy]
    · simp [setCache, Line.setCopy, line, hj]
  readable := by
    intro j
    by_cases hj : j = i
    · subst hj; intro _; simpa [setCache] using hb'
    · simpa [setCache, hj] using hline.readable j
  evicted := by intro v hv; cases hv
  rest := by
    intro j k' hk' _
    by_cases hj : j = i
    · subst hj; simp [setCache, hk']
    · simp [setCache, hj]
  bytes := rfl

/-- **A miss**: the others are snooped, a victim may go, and the block is filled. -/
theorem outcome_of_fill {s₁ : System n} {bus' : Packet} {used : Option Key}
    (hres : BlockResult p s bus i s₁ bus') (hkey : bus.key p.blkSize = k) (hfill : Filled p s s₁ i k used b' s')
    (hused : ∀ v, used = some v → v ≠ k ∧ (s.caches i v).isValid = true) (hline : Orderly p s k)
    (hb' : b'.isReadable = true) (hself : replica p b' = L.copy i)
    (hothers : ∀ j, j ≠ i → replica p (bus.snoopBlk (s.caches j k)) = L.copy j) : Outcome p s i k used L s' := by
  have hi : s'.caches i = update (evictedCache (s.caches i) used) k b' := by
    rw [hfill.caches, update_self]
  have hj : ∀ j, j ≠ i → s'.caches j = update (s.caches j) k (bus.snoopBlk (s.caches j k)) := by
    intro j hj
    rw [hfill.caches, update_of_ne hj, hres.others j hj, snoopCache, blkOf, hkey]
  refine ⟨hfill.config, ?_, ?_, ?_, ?_, hfill.bytes⟩
  · intro j
    by_cases hji : j = i
    · rw [hji, hi, update_self]; exact hself
    · rw [hj j hji, update_self]; exact hothers j hji
  · intro j hv
    by_cases hji : j = i
    · rw [hji, hi, update_self]; exact hb'
    · rw [hj j hji, update_self] at hv ⊢
      exact readable_snoop bus (hline.readable j) hv
  · intro v hv
    obtain ⟨hne, hvalid⟩ := hused v hv
    refine ⟨hne, hvalid, ?_⟩
    rw [hi, update_of_ne hne, hv, evictedCache, update_self]
  · intro j k' hk' hnot
    by_cases hji : j = i
    · subst hji
      rw [hi, update_of_ne hk']
      cases used with
      | none => rfl
      | some v =>
        refine update_of_ne ?_ _ _
        rintro rfl
        exact hnot rfl rfl
    · rw [hj j hji, update_of_ne hk']

/-! ## Hits -/

/-- A block that is valid, and writable where that is asked for, is a hit. -/
theorem access_hit {c : Cache} (h : LineRequest p pkt) (hv : (c (pkt.key p.blkSize)).isValid = true)
    (hr : (c (pkt.key p.blkSize)).isReadable = true)
    (hw : pkt.cmd.needsExclusive = true → (c (pkt.key p.blkSize)).isWritable = true)
    (hsat : satisfyCpuSideRequest p pkt (c (pkt.key p.blkSize)) false false = some (b', q)) : access p c pkt victim =
      some ⟨update c (pkt.key p.blkSize) b', q, true, []⟩ := by
  obtain ⟨hreq, -, hwb, -⟩ := h.attributes
  have hrights : (if pkt.cmd.needsExclusive then (c (pkt.key p.blkSize)).isWritable
      else (c (pkt.key p.blkSize)).isReadable) = true := by
    split
    · rename_i hne; exact hw hne
    · exact hr
  unfold access
  simp only [hreq, if_true, h.cacheable, Bool.false_eq_true, if_false, hwb, hv, hrights,
    Bool.and_self, hsat, map_some]

/-- **Anything else is a miss**, and changes nothing yet. -/
theorem access_miss {c : Cache} (h : LineRequest p pkt) (hmiss : Misses pkt (c (pkt.key p.blkSize)))
    (victim : Option Key) : access p c pkt victim = some ⟨c, pkt, false, []⟩ := by
  obtain ⟨hreq, -, hwb, -, hllsc⟩ := h.attributes
  unfold access
  simp only [hreq, if_true, h.cacheable, Bool.false_eq_true, if_false, hwb, hllsc, Bool.and_false, Bool.false_and]
  cases hv : (c (pkt.key p.blkSize)).isValid with
  | false => rfl
  | true =>
    obtain ⟨hne, hw⟩ := hmiss hv
    simp [hne, hw]

/-! ## What the request makes of the line -/

/-- Cache `i` reads byte `o` of a line as `v`: its own copy, or what it is told. -/
structure ReadAs (s : System n) (i : Fin n) (k : Key) (o : Nat) (v : Byte) : Prop where
  own : (s.caches i k).isValid = true → v = (s.caches i k).data o
  told : (s.caches i k).isValid = false → (byteLine s k o).Supplied (some i) v

/-- The request `pkt` of cache `i` makes `L` of its line and answers with `q`. -/
structure Transition (p : CacheParams) (s : System n) (i : Fin n) (pkt : Packet)
    (victim : Option Key) (L : Line (Fin n) (Fin p.blkSize → Byte)) (s' : System n) (q : Packet) :
    Prop where
  outcome : Outcome p s i (pkt.key p.blkSize) victim L s'
  marks : L.Exclusive
  backing : L.backing = (line p s (pkt.key p.blkSize)).backing
  values : ∀ flat, (line p s (pkt.key p.blkSize)).Holds (lineOf p flat (pkt.key p.blkSize).1) →
    L.Holds (lineOf p (specStep flat pkt) (pkt.key p.blkSize).1)
  read : pkt.cmd.isRead = true → ∀ o, o < pkt.size →
    ReadAs s i (pkt.key p.blkSize) (pkt.getOffset p.blkSize + o) (q.data o)

theorem agreesAt_of_holds {a : Addr} {j : Fin n} (h : (line p s k).Holds (lineOf p flat a))
    (hv : (s.caches j k).isValid = true) : AgreesAt p flat a (s.caches j k) :=
  agreesAt_iff.mpr (h.copies j hv)

/-- In an exclusive line an invalid block is not dirty. -/
theorem clean_of_invalid {j : Fin n} (hx : (line p s k).Exclusive)
    (hv : (s.caches j k).isValid = false) : (s.caches j k).isDirty = false :=
  mark_false (hx.valid_of_dirty j) hv

theorem ReadAs.of_own {v : Byte} (hv : (s.caches i k).isValid = true)
    (h : v = (s.caches i k).data o) : ReadAs s i k o v :=
  ⟨fun _ => h, fun hinv => absurd (hv.symm.trans hinv) (by decide)⟩

theorem ReadAs.of_told {v : Byte} (hv : (s.caches i k).isValid = false)
    (h : (byteLine s k o).Supplied (some i) v) : ReadAs s i k o v :=
  ⟨fun hinv => absurd (hv.symm.trans hinv) (by decide), fun _ => h⟩

/-- What a cache reads is the value that the line holds. -/
theorem ReadAs.eq {v w : Byte} (h : ReadAs s i k o w) (hx : (line p s k).Exclusive)
    (hv : (byteLine s k o).Holds v) : w = v := by
  cases hi : (s.caches i k).isValid with
  | true => exact (h.own hi).trans (hv.copies i hi)
  | false =>
    refine hv.supplied (exclusive_byteLine hx o) (fun j hj => ?_) (h.told hi)
    obtain rfl := some.inj hj
    exact clean_of_invalid hx hi

section

variable (hline : Orderly p s (pkt.key p.blkSize)) (hv : (held p s pkt i).isValid = true)

include hline hv

/-- **A write or swap that hits** sets the one copy that there is. -/
theorem transition_own_hit (hw : (held p s pkt i).isWritable = true)
    (hsat : Satisfied p pkt (held p s pkt i) b' q) : Transition p s i pkt none
      ((line p s (pkt.key p.blkSize)).setCopy i (replica p b'))
      (s.setCache i (update (s.caches i) (pkt.key p.blkSize) b')) q := by
  obtain ⟨hvalid, hwritable, hread⟩ := hsat.marks
  have hx := hline.marks
  have hr := hline.readable i hv
  have hb' : b'.isReadable = true := by
    unfold CacheBlk.isReadable at hr ⊢
    rw [hread, hvalid]
    simpa using (Bool.and_eq_true_iff.mp hr).1
  have howned := hx.setCopy_eq (i := i) (r := replica p b') hw
  refine ⟨outcome_of_setBlk hline hb', ?_, rfl, fun flat h => ?_, fun hcmd o ho => ?_⟩
  · rw [howned]
    exact Line.exclusive_ownedBy hvalid
  · obtain ⟨hagrees, hclean⟩ := hsat.bytes flat (agreesAt_of_holds h hv)
    rw [howned]
    refine Line.holds_ownedBy hvalid (agreesAt_iff.mp hagrees) fun hd => ?_
    rw [hclean hd]
    -- nobody is dirty: not we, and nobody else has a copy
    refine h.backing fun j => ?_
    by_cases hj : j = i
    · rw [hj]
      exact mark_false hsat.dirty hd
    · refine clean_of_invalid hx ?_
      by_contra hvj
      exact hj (hx.sole i j hw (Bool.of_not_eq_false hvj))
  · exact ReadAs.of_own hv (hsat.result hcmd o ho)

/-- **A read that hits** changes nothing. -/
theorem transition_read_hit
    (hsat : Satisfied p pkt (held p s pkt i) (held p s pkt i) q) (hspec : ∀ flat, specStep flat pkt = flat) :
    Transition p s i pkt none (line p s (pkt.key p.blkSize)) (s.setCache i (update (s.caches i) (pkt.key p.blkSize)
        (held p s pkt i))) q := by
  have hsame : (line p s (pkt.key p.blkSize)).setCopy i
      (replica p (held p s pkt i)) = line p s (pkt.key p.blkSize) := by
    show Line.mk (update (line p s (pkt.key p.blkSize)).copy i ((line p s (pkt.key p.blkSize)).copy i)) _ = _
    rw [update_eq_self]
  refine ⟨?_, hline.marks, rfl, fun flat h => ?_, fun hcmd o ho => ?_⟩
  · have hout := outcome_of_setBlk (i := i) hline (hline.readable i hv)
    rw [hsame] at hout
    exact hout
  · rw [hspec]
    exact h
  · exact ReadAs.of_own hv (hsat.result hcmd o ho)

end

section Miss

variable {s₁ : System n} {bus bus' : Packet}

section

variable (hres : BlockResult p s bus i s₁ bus') (hreq : BlockRequest p bus) (hread : bus.cmd.isRead = true)

include hres hreq hread

/-- The answer of the bus has the bytes that the line supplies. -/
theorem BlockResult.tells (hkey : bus.key p.blkSize = k)
    (hx : (line p s k).Exclusive) {o : Nat} (ho : o < p.blkSize) :
    (byteLine s k o).Supplied (some i) (bus'.data o) := by
  subst hkey
  have hcmd : bus.cmd ≠ .writeInvalidateReq := by
    intro hc
    rw [hc] at hread
    cases hread
  have haddr : bus.addr = (bus.key p.blkSize).1 := by rw [hreq.key_eq]
  refine ⟨fun j hj hd => ?_, fun hclean => ?_⟩
  · have hji : j ≠ i := fun heq => hj (congrArg some heq)
    exact hres.supplied j hji ((hreq.answers_iff _).mpr ⟨hx.valid_of_dirty j hd, hd, hcmd⟩) o ho
  · show bus'.data o = s.mem.bytes ((bus.key p.blkSize).1 + o)
    rw [← haddr]
    refine hres.fetched (fun j hj => ?_) hread o ho
    by_contra ha
    have hd : (blkOf p s bus j).isDirty = true :=
      ((hreq.answers_iff _).mp (Bool.of_not_eq_false ha)).2.1
    have hd' : (blkOf p s bus j).isDirty = false :=
      hclean j (fun heq => hj (some.inj heq))
    rw [hd] at hd'
    cases hd'

/-- So has the block that is filled from it. -/
theorem BlockResult.filled (hkey : bus.key p.blkSize = k) (hx : (line p s k).Exclusive)
    (b : CacheBlk) {o : Nat} (ho : o < p.blkSize) :
    (byteLine s k o).Supplied (some i) ((fillBlk p bus' b).data o) := by
  have hresp : bus'.cmd.isRead = true := by
    rw [hres.cmd]
    rcases hreq.cases with hc | hc | hc | hc <;> rw [hc] at hread ⊢ <;> first | rfl | cases hread
  rw [(fillBlk_marks p bus' b).2.2.2.2, hresp, if_pos rfl,
    memcpy_of_mem (Nat.zero_le _) (by omega), Nat.zero_add, Nat.sub_zero]
  exact hres.tells hreq hread hkey hx ho

end

theorem agreesAt_of_readAs {b : CacheBlk} {flat : Buffer Byte}
    (h : ∀ o, o < p.blkSize → ReadAs s i k o (b.data o)) (hx : (line p s k).Exclusive)
    (hflat : (line p s k).Holds (lineOf p flat k.1)) : AgreesAt p flat k.1 b :=
  fun o ho => (h o ho).eq hx (holds_byteLine hflat ho)

/-- **A read that misses** adds a copy. -/
theorem transition_read_miss {used : Option Key} {q : Packet}
    (hres : BlockResult p s bus i s₁ bus') (hreq : BlockRequest p bus) (hcmd : bus.cmd = .readReq)
    (hkey : bus.key p.blkSize = pkt.key p.blkSize) (hline : Orderly p s (pkt.key p.blkSize))
    (hv : (held p s pkt i).isValid = false)
    (hused : ∀ v, used = some v → v ≠ pkt.key p.blkSize ∧ (s.caches i v).isValid = true)
    {F : CacheBlk} (hF : F = fillBlk p bus' (held p s pkt i).invalidate)
    (hfill : Filled p s s₁ i (pkt.key p.blkSize) used F s') (hsat : Satisfied p pkt F F q)
    (hspec : ∀ flat, specStep flat pkt = flat) (hfits : pkt.getOffset p.blkSize + pkt.size ≤ p.blkSize) :
    Transition p s i pkt used ((line p s (pkt.key p.blkSize)).readBy i (replica p F)) s' q := by
  have hx := hline.marks
  obtain ⟨hvalid, hread, hwritable, hdirty, -⟩ :=
    fillBlk_marks p bus' (held p s pkt i).invalidate
  rw [← hF] at hvalid hread hwritable hdirty
  have hshared : ∀ j, j ≠ i → (held p s pkt j).isValid = true → bus'.sharedAsserted = true := by
    intro j hj hvj
    refine hres.shared.mpr ⟨hcmd, j, hj, ?_⟩
    rw [blkOf, hkey]
    exact hvj
  -- an owner that answers keeps its copy, so we come in clean
  have hclean : F.dirty = false := by
    rw [hdirty, CacheBlk.invalidate, Bool.false_or]
    cases hinh : bus'.memInhibitAsserted with
    | false => rw [Bool.and_false]
    | true =>
      obtain ⟨j, hj, ha⟩ := hres.inhibit.mp hinh
      have hvj := ((hreq.answers_iff _).mp ha).1
      rw [blkOf, hkey] at hvj
      rw [hshared j hj hvj]
      rfl
  have hsole : (replica p F).writable = true →
      ∀ j, j ≠ i → ((line p s (pkt.key p.blkSize)).copy j).valid = false := by
    intro hw j hj
    by_contra hvj
    have hwF : F.writable = true := (Bool.and_eq_true_iff.mp hw).1
    rw [hwritable, hshared j hj (Bool.of_not_eq_false hvj)] at hwF
    cases hwF
  have hi := clean_of_invalid hx hv
  have htold : ∀ o, o < p.blkSize → ReadAs s i (pkt.key p.blkSize) o (F.data o) := by
    intro o ho
    rw [hF]
    exact ReadAs.of_told hv (hres.filled hreq (by rw [hcmd]; rfl) hkey hx _ ho)
  refine ⟨?_, hx.readBy hvalid hclean hsole, rfl, fun flat h => ?_, fun hr o ho => ?_⟩
  · refine outcome_of_fill hres hkey hfill hused hline ?_ ?_ fun j hj => ?_
    · simp [CacheBlk.isReadable, hread, hvalid]
    · simp [Line.readBy]
    · rw [replica_snoop_read hreq hcmd]
      simp [Line.readBy, hj, line]
  · rw [hspec]
    exact h.readBy hi (agreesAt_iff.mp (agreesAt_of_readAs htold hx h))
  · rw [hsat.result hr o ho]
    exact htold _ (by omega)

section

variable (h : LineRequest p pkt) (hcmd : pkt.cmd ≠ .readReq)

include h hcmd

/-- Before the write, the block that was filled has the bytes of the line. -/
theorem own_filled (hwi : pkt.cmd ≠ .writeInvalidateReq)
    (hres : BlockResult p s (busOf p pkt (held p s pkt i)) i s₁ bus')
    (hx : (line p s (pkt.key p.blkSize)).Exclusive) {o : Nat} (ho : o < p.blkSize) : ReadAs s i (pkt.key p.blkSize) o
      ((fillBlk p bus' (startBlk (s.caches i) (pkt.key p.blkSize))).data o) := by
  have hkey := (busOf_key h (held p s pkt i)).2.2
  have hbus : (busOf p pkt (held p s pkt i)).cmd = _ := busCmd_eq h _
  rw [if_neg hwi, if_neg hcmd] at hbus
  cases hv : (held p s pkt i).isValid with
  | true =>
    -- an upgrade: our own bytes
    have hresp : bus'.cmd.isRead = false := by rw [hres.cmd, hbus, hv]; rfl
    refine ReadAs.of_own hv ?_
    rw [(fillBlk_marks p bus' _).2.2.2.2, hresp, if_neg (by simp), startBlk, hv, if_pos rfl]
  | false =>
    refine ReadAs.of_told hv (hres.filled (busOf_request h _) ?_ hkey hx _ ho)
    rw [hbus, hv]
    rfl

theorem busOf_own (b : CacheBlk) : (busOf p pkt b).cmd ≠ .readReq := by
  show busCmd pkt b.isValid ≠ _
  rw [busCmd_eq h]
  split
  · decide
  · split
    · decide
    · decide

/-- If a block that is filled for a write is clean, then nobody had the line dirty. -/
theorem own_clean (hwi : pkt.cmd ≠ .writeInvalidateReq)
    (hres : BlockResult p s (busOf p pkt (held p s pkt i)) i s₁ bus') (hx : (line p s (pkt.key p.blkSize)).Exclusive)
    (hclean : (fillBlk p bus' (startBlk (s.caches i) (pkt.key p.blkSize))).dirty = false) (j : Fin n) :
    (held p s pkt j).isDirty = false := by
  have hreq := busOf_request h (held p s pkt i)
  have hkey := (busOf_key h (held p s pkt i)).2.2
  have hshared : bus'.sharedAsserted = false := by
    by_contra hs
    exact busOf_own h hcmd _ (hres.shared.mp (Bool.of_not_eq_false hs)).1
  rw [(fillBlk_marks p bus' _).2.2.2.1, hshared, Bool.not_false, Bool.or_eq_false_iff] at hclean
  by_cases hj : j = i
  · rw [hj]
    cases hv : (held p s pkt i).isValid with
    | true =>
      have hstart := hclean.1
      rw [startBlk, hv] at hstart
      exact hstart
    | false => exact clean_of_invalid hx hv
  · by_contra hd
    have hdirty : (held p s pkt j).isDirty = true := Bool.of_not_eq_false hd
    have hans : (busOf p pkt (held p s pkt i)).answers (blkOf p s (busOf p pkt (held p s pkt i)) j) = true := by
      rw [hreq.answers_iff, blkOf, hkey]
      refine ⟨hx.valid_of_dirty j hdirty, hdirty, ?_⟩
      show busCmd pkt _ ≠ _
      rw [busCmd_eq h]
      split <;> decide
    rw [hres.inhibit.mpr ⟨j, hj, hans⟩] at hclean
    cases hclean.2

/-- **A write or swap that misses** leaves the one copy that it has got. -/
theorem transition_own_miss {used : Option Key} {b' : CacheBlk} {q : Packet}
    (hres : BlockResult p s (busOf p pkt (held p s pkt i)) i s₁ bus') (hline : Orderly p s (pkt.key p.blkSize))
    (hused : ∀ v, used = some v → v ≠ pkt.key p.blkSize ∧ (s.caches i v).isValid = true) {F : CacheBlk}
    (hF : F = fillBlk p (fillOf pkt bus') (startBlk (s.caches i) (pkt.key p.blkSize)))
    (hfill : Filled p s s₁ i (pkt.key p.blkSize) used b' s') (hsat : Satisfied p pkt F b' q) :
    Transition p s i pkt used ((line p s (pkt.key p.blkSize)).ownedBy i (replica p b')) s' q := by
  have hreq := busOf_request h (held p s pkt i)
  have hkey := (busOf_key h (held p s pkt i)).2.2
  have hx := hline.marks
  have hread : F.readable = true := by rw [hF]; exact (fillBlk_marks p _ _).2.1
  have hb' : b'.isReadable = true := by
    simp [CacheBlk.isReadable, hsat.marks.1, hsat.marks.2.2, hread]
  refine ⟨?_, Line.exclusive_ownedBy hsat.marks.1, rfl, fun flat hflat => ?_, fun hr o ho => ?_⟩
  · refine outcome_of_fill hres hkey hfill hused hline hb' ?_ fun j hj => ?_
    · simp [Line.ownedBy]
    · rw [replica_snoop_own hreq (busOf_own h hcmd _) (fun hd => hx.valid_of_dirty j hd)]
      simp [Line.ownedBy, hj, line]
  · by_cases hwi : pkt.cmd = .writeInvalidateReq
    · obtain ⟨hd, hagrees⟩ := hsat.whole hwi
      refine Line.holds_ownedBy hsat.marks.1 (agreesAt_iff.mp (hagrees flat)) fun hclean => ?_
      rw [show (replica p b').dirty = true from hd] at hclean
      cases hclean
    · have hfill : fillOf pkt bus' = bus' := if_neg hwi
      have hagreesF := agreesAt_of_readAs (fun o ho => own_filled h hcmd hwi hres hx ho) hx hflat
      rw [← hfill, ← hF] at hagreesF
      obtain ⟨hagrees, hsame⟩ := hsat.bytes flat hagreesF
      refine Line.holds_ownedBy hsat.marks.1 (agreesAt_iff.mp hagrees) fun hclean => ?_
      rw [hsame hclean]
      have hFclean : F.dirty = false := mark_false hsat.dirty hclean
      rw [hF, hfill] at hFclean
      exact hflat.backing (own_clean h hcmd hwi hres hx hFclean)
  · have hwi : pkt.cmd ≠ .writeInvalidateReq := by
      intro hc
      rw [hc] at hr
      cases hr
    have hfits := h.fits
    rw [hsat.result hr o ho, hF, fillOf, if_neg hwi]
    exact own_filled h hcmd hwi hres hx (by omega)

end

end Miss

/-! ## One request -/

/-- `Cache::recvAtomic` after the promotion of whole-line writes, before the response is made. -/
def serveLine (p : CacheParams) (s : System n) (i : Fin n) (pkt : Packet) (victim : Option Key) :
    Option (System n × Packet) :=
  (access p (s.caches i) pkt victim).bind fun acc =>
    (sendWritebacks p (s.setCache i acc.cache) i acc.writebacks).bind fun s =>
      if acc.satisfied then some (s, acc.pkt) else handleMiss p s i acc.pkt victim

/-- The request is served as a transition of its line, which evicts the victim or nothing. -/
def Served (p : CacheParams) (s : System n) (i : Fin n) (pkt : Packet) (victim : Option Key) : Prop :=
  ∃ s' q L used, (used = none ∨ used = victim) ∧ q.cmd = pkt.cmd ∧
    serveLine p s i pkt victim = some (s', q) ∧ Transition p s i pkt used L s' q

theorem specStep_read (h : pkt.cmd = .readReq) (flat : Buffer Byte) : specStep flat pkt = flat := by
  simp [specStep, h, MemCmd.isWrite, MemCmd.testCmdAttrib, MemCmd.attributes]

section

variable (h : LineRequest p pkt) (htop : p.isTopLevel = true) (hline : Orderly p s (pkt.key p.blkSize))

include h htop hline

/-- A hit is served in the cache. -/
theorem serveLine_hit (hv : (held p s pkt i).isValid = true)
    (hw : pkt.cmd.needsExclusive = true → (held p s pkt i).isWritable = true) (victim : Option Key) :
    Served p s i pkt victim := by
  obtain ⟨b', q, hsat, hsatisfied⟩ := h.satisfy_spec htop hv hw
  refine ⟨s.setCache i (update (s.caches i) (pkt.key p.blkSize) b'), q, ?_⟩
  have hrun : serveLine p s i pkt victim = some (s.setCache i (update (s.caches i) (pkt.key p.blkSize) b'), q) := by
    rw [serveLine, access_hit h hv (hline.readable i hv) hw hsat]
    rfl
  by_cases hcmd : pkt.cmd = .readReq
  · obtain rfl := hsatisfied.read hcmd
    exact ⟨_, none, Or.inl rfl, hsatisfied.header.1, hrun,
      transition_read_hit hline hv hsatisfied (specStep_read hcmd)⟩
  · have hne : pkt.cmd.needsExclusive = true := by
      rcases h.cases with hc | hc | hc | hc
      · exact absurd hc hcmd
      all_goals rw [hc]; rfl
    exact ⟨_, none, Or.inl rfl, hsatisfied.header.1, hrun, transition_own_hit hline hv (hw hne) hsatisfied⟩

section

variable (hmem : InMem p s.mem (pkt.key p.blkSize).1)
  (hnull : s.mem.isNull = false) (hvictim : VictimOk p s i victim)

include hmem hnull hvictim

/-- A miss is served over the bus. -/
theorem serveLine_miss (hmiss : Misses pkt (held p s pkt i)) : Served p s i pkt victim := by
  obtain ⟨s₁, bus', hres, hdone⟩ := handleMiss_spec h htop hline.marks hmiss hmem hnull hvictim
  -- the filled block has the rights that the request needs
  obtain ⟨b', q, hsat, hsatisfied⟩ := h.satisfy_spec (b := fillBlk p (fillOf pkt bus')
    (startBlk (s.caches i) (pkt.key p.blkSize))) htop (fillBlk_marks p _ _).1 (by
      intro hne
      have hcmd : pkt.cmd ≠ .readReq := by intro hc; rw [hc] at hne; cases hne
      have hshared : (fillOf pkt bus').sharedAsserted = false := by
        unfold fillOf
        split
        · exact h.fresh.1
        · by_contra hs
          exact busOf_own h hcmd _ (hres.shared.mp (Bool.of_not_eq_false hs)).1
      simp [CacheBlk.isWritable, fillBlk_marks, hshared])
  obtain ⟨hcmd', haddr, hsec⟩ := hsatisfied.header
  obtain ⟨s', hmissed, hfill⟩ := hdone b' q hsat (by
    simp only [Packet.key, haddr, hsec])
  have hused : ∀ v, usedVictim (s.caches i) (pkt.key p.blkSize) victim = some v →
      v ≠ pkt.key p.blkSize ∧ (s.caches i v).isValid = true := by
    intro v hv
    obtain ⟨hinv, hv⟩ := ite_none_left_eq_some.mp hv
    refine ⟨?_, (hvictim v hv).1⟩
    rintro rfl
    exact hinv (hvictim _ hv).1
  have hrun : serveLine p s i pkt victim = some (s', q) := by
    rw [serveLine, access_miss h hmiss]
    simp only [bind_some, sendWritebacks, exec, setCache, update_eq_self, Bool.false_eq_true, if_false]
    exact hmissed
  refine ⟨s', q, ?_⟩
  by_cases hcmd : pkt.cmd = .readReq
  · have hinv : (held p s pkt i).isValid = false := by
      by_contra hv
      have hne := (hmiss (Bool.of_not_eq_false hv)).1
      rw [hcmd] at hne
      cases hne
    have hwi : pkt.cmd ≠ .writeInvalidateReq := by rw [hcmd]; decide
    have hsame := hsatisfied.read hcmd
    rw [hsame] at hfill hsatisfied
    refine ⟨_, _, ?_, hcmd', hrun, transition_read_miss hres (busOf_request h _) ?_
      (busOf_key h _).2.2 hline hinv hused ?_ hfill hsatisfied (specStep_read hcmd) h.fits⟩
    · simp [usedVictim, hinv]
    · show busCmd pkt _ = _
      rw [busCmd_eq h, hinv, if_neg (by simp), if_neg hwi, if_pos hcmd]
    · rw [fillOf, if_neg hwi, startBlk, hinv, if_neg (by simp)]
  · refine ⟨_, _, ?_, hcmd', hrun, transition_own_miss h hcmd hres hline hused rfl hfill hsatisfied⟩
    unfold usedVictim
    split
    · exact Or.inl rfl
    · exact Or.inr rfl

/-- **A request is a transition of its line, and always completes.** -/
theorem serveLine_spec : Served p s i pkt victim := by
  by_cases hmiss : Misses pkt (held p s pkt i)
  · exact serveLine_miss h htop hline hmem hnull hvictim hmiss
  · unfold Misses at hmiss
    push Not at hmiss
    obtain ⟨hv, hw⟩ := hmiss
    exact serveLine_hit h htop hline hv (fun hne => by simpa using hw hne) victim

end

end

/-! ## Requests of the CPU -/

/-- A cacheable read, write or swap within one line, as the CPU sends it. -/
structure CpuRequest (p : CacheParams) (pkt : Packet) : Prop where
  cmd : pkt.cmd ∈ [MemCmd.readReq, .writeReq, .swapReq]
  cacheable : pkt.req.isUncacheable = false
  req : pkt.req.paddr = pkt.addr ∧ pkt.req.isSecure = pkt.isSecure
  fits : pkt.getOffset p.blkSize + pkt.size ≤ p.blkSize
  swapSize : pkt.cmd = .swapReq → pkt.size ≤ 8 ∧ (pkt.req.isCondSwap = true → pkt.size = 8 ∨ pkt.size = 4)
  fresh : pkt.sharedAsserted = false ∧ pkt.memInhibitAsserted = false

/-- A request after the promotion of whole-line writes. -/
def promoted (p : CacheParams) (pkt : Packet) : Packet :=
  if pkt.cmd = .writeReq ∧ pkt.size = p.blkSize ∧ pkt.getOffset p.blkSize = 0 then
    { pkt with cmd := .writeInvalidateReq }
  else pkt

/-- In a top-level cache the promotion of whole-line writes goes through. -/
theorem promoteWholeLineWrites_eq (htop : p.isTopLevel = true) (pkt : Packet) :
    promoteWholeLineWrites p pkt = some (promoted p pkt) := by
  unfold promoteWholeLineWrites promoted
  split <;> rfl

theorem promoted_cases (p : CacheParams) (pkt : Packet) : promoted p pkt = pkt ∨
      (promoted p pkt = { pkt with cmd := .writeInvalidateReq } ∧ pkt.cmd = .writeReq ∧
        pkt.size = p.blkSize ∧ pkt.getOffset p.blkSize = 0) := by
  unfold promoted
  split
  · rename_i h; exact Or.inr ⟨rfl, h⟩
  · exact Or.inl rfl

/-- A promoted request is still within one line. -/
theorem CpuRequest.line (h : CpuRequest p pkt) : LineRequest p (promoted p pkt) := by
  have hcmd := h.cmd
  simp only [List.mem_cons, List.not_mem_nil, or_false] at hcmd
  rcases promoted_cases p pkt with heq | ⟨heq, -, hsize, hoff⟩
  · rw [heq]
    refine ⟨?_, h.cacheable, h.req, h.fits, h.swapSize, fun hwi => ?_, h.fresh⟩
    · rcases hcmd with hc | hc | hc <;> rw [hc] <;> decide
    · rcases hcmd with hc | hc | hc <;> rw [hc] at hwi <;> cases hwi
  · rw [heq]
    exact ⟨by simp, h.cacheable, h.req, h.fits, nofun, fun _ => ⟨hoff, hsize⟩, h.fresh⟩

/-- The promotion does not change what is written. -/
theorem Transition.of_promoted (h : Transition p s i (promoted p pkt) victim L s' q) :
    Transition p s i pkt victim L s' q.makeResponse := by
  rcases promoted_cases p pkt with heq | ⟨heq, hcmd, -, -⟩
  · rw [heq] at h
    exact { h with }
  · rw [heq] at h
    refine ⟨h.outcome, h.marks, h.backing, fun flat hflat => ?_, fun hread => ?_⟩
    · have hspec : specStep flat pkt = specStep flat { pkt with cmd := .writeInvalidateReq } := by
        simp [specStep, hcmd, MemCmd.isWrite, MemCmd.testCmdAttrib, MemCmd.attributes]
      rw [hspec]
      exact h.values flat hflat
    · rw [hcmd] at hread
      cases hread

/-- **A request of the CPU is a transition of its line, and always gets its response.** -/
theorem request_spec (h : CpuRequest p pkt) (htop : p.isTopLevel = true)
    (hline : Orderly p s (pkt.key p.blkSize)) (hmem : InMem p s.mem (pkt.key p.blkSize).1)
    (hnull : s.mem.isNull = false) (hvictim : VictimOk p s i victim) : ∃ s' q L used, (used = none ∨ used = victim) ∧
      cacheRecvAtomic p s i pkt victim = some (s', q) ∧ q.cmd.isResponse = true ∧
      Transition p s i pkt used L s' q := by
  have hkey : (promoted p pkt).key p.blkSize = pkt.key p.blkSize := by
    rcases promoted_cases p pkt with heq | ⟨heq, -⟩ <;> rw [heq]; rfl
  have hpkt := h.line
  obtain ⟨s', q, L, used, hused, hq, hserve, htrans⟩ := serveLine_spec hpkt htop
    (by rw [hkey]; exact hline) (by rw [hkey]; exact hmem) hnull hvictim
  have hneeds : q.cmd.needsResponse = true := by
    rw [hq]
    exact hpkt.attributes.2.1
  refine ⟨s', q.makeResponse, L, used, hused, ?_, (MemCmd.responseCommand_isResponse _ hneeds).2.1,
    htrans.of_promoted⟩
  unfold cacheRecvAtomic
  rw [promoteWholeLineWrites_eq htop, bind_some, hpkt.fresh.2, if_neg (by simp)]
  obtain ⟨acc, hacc, hserve⟩ := bind_eq_some_iff.mp hserve
  obtain ⟨s₁, hs₁, hserve⟩ := bind_eq_some_iff.mp hserve
  rw [hacc, bind_some, hs₁, bind_some, hserve, map_some]
  simp only [hneeds, if_true]

end System

end NvpSim.Mem
