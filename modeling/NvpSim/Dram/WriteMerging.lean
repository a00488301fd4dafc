/-
  The write queue of `DRAMCtrl` and its merging (`addToWriteQueue`).

  A write request is cut into bursts, and each piece is merged with the first entry of the queue with which it
  makes one stretch of at most a burst.  The test looks at the LENGTH of the stretch only: a piece that ends at
  the border of its burst is merged with an entry that begins there, and the entry then lies across the border,
  with the bank and the row of one of the two bursts.
-/
import NvpSim.Dram.Controller
import NvpSim.Lib.Run

namespace NvpSim.Dram

open NvpSim.Base NvpSim.Lib NvpSim.Mem List

variable {p : DRAMCtrlParams} {pkt : Pkt} {s s' : DRAMCtrl} {w w' : DRAMPacket} {a n k b : Nat}
  {queue queue' : List DRAMPacket}

/-! ## Bytes -/

/-- A byte of a request. -/
def Pkt.Writes (pkt : Pkt) (b : Nat) : Prop := pkt.addr ≤ b ∧ b < pkt.addr + pkt.size

/-- A byte of an entry of the queue. -/
def DRAMPacket.Covers (w : DRAMPacket) (b : Nat) : Prop := w.addr ≤ b ∧ b < w.addr + w.size

/-- A byte that some entry has. -/
def Queued (queue : List DRAMPacket) (b : Nat) : Prop := ∃ w ∈ queue, w.Covers b

/-- **The entry lies in one aligned burst.** -/
def InOneBurst (p : DRAMCtrlParams) (w : DRAMPacket) : Prop :=
  w.addr + w.size ≤ (w.addr / p.burstSize + 1) * p.burstSize

namespace DRAMCtrl

/-! ## One piece -/

theorem mergeWith_covers (h : mergeWith p w a n = some w') : w'.Covers b ↔ w.Covers b ∨ (a ≤ b ∧ b < a + n) := by
  unfold mergeWith at h
  unfold DRAMPacket.Covers
  split at h
  · split at h
    · cases h
      show a ≤ b ∧ b < a + n ↔ _
      omega
    split at h
    · cases h
      show a ≤ b ∧ b < a + (w.addr + w.size - a) ↔ _
      omega
    · cases h
  split at h
  · cases h
    omega
  split at h
  · cases h
    show w.addr ≤ b ∧ b < w.addr + (a + n - w.addr) ↔ _
    omega
  · cases h

theorem mergeWith_addr_le (h : mergeWith p w a n = some w') : w'.addr ≤ a := by
  unfold mergeWith at h
  split_ifs at h with hle
  · cases h
    exact le_rfl
  · cases h
    exact le_rfl
  all_goals
    cases h
    exact Nat.le_of_not_le hle

/-- An entry of another burst that a piece touches is too long to be merged with it. -/
def Clear (p : DRAMCtrlParams) (w : DRAMPacket) (piece : Nat × Nat) : Prop :=
  w.addr + w.size = piece.1 ∨ piece.1 + piece.2 = w.addr → w.addr / p.burstSize ≠ piece.1 / p.burstSize →
    p.burstSize < w.size + piece.2

instance (w : DRAMPacket) (piece : Nat × Nat) : Decidable (Clear p w piece) := inferInstanceAs (Decidable (_ → _))

theorem mergeWith_inOneBurst (h : mergeWith p w a n = some w') (hw : InOneBurst p w)
    (hpiece : a + n ≤ (a / p.burstSize + 1) * p.burstSize) (hclear : Clear p w (a, n)) : InOneBurst p w' := by
  have hdiv := fun {x y : Nat} (hxy : x ≤ y) => Nat.div_le_div_right (c := p.burstSize) hxy
  unfold InOneBurst at hw ⊢
  unfold Clear at hclear
  dsimp only at hclear
  unfold mergeWith at h
  rcases Nat.lt_trichotomy (w.addr / p.burstSize) (a / p.burstSize) with hlt | hsame | hgt
  · -- the entry ends before the burst of the piece begins
    have hends : (w.addr / p.burstSize + 1) * p.burstSize ≤ a / p.burstSize * p.burstSize :=
      Nat.mul_le_mul_right _ hlt
    have hbegins := Nat.div_mul_le_self a p.burstSize
    split_ifs at h with h₁ h₂ h₃ h₄ h₅
    · have := hdiv h₁; omega
    · have := hdiv h₁; omega
    · cases h
      exact hw
    · have := hclear (by omega) hlt.ne
      omega
  · rw [hsame] at hw
    split_ifs at h with h₁ h₂ h₃ h₄ h₅
    · cases h
      exact hpiece
    · cases h
      dsimp only
      omega
    · cases h
      rwa [hsame]
    · cases h
      dsimp only
      rw [hsame]
      omega
  · -- the piece ends before the burst of the entry begins
    have hends : (a / p.burstSize + 1) * p.burstSize ≤ w.addr / p.burstSize * p.burstSize :=
      Nat.mul_le_mul_right _ hgt
    have hbegins := Nat.div_mul_le_self w.addr p.burstSize
    split_ifs at h with h₁ h₂ h₃ h₄ h₅
    · cases h
      exact hpiece
    · have := hclear (by omega) hgt.ne'
      omega
    · have := hdiv (Nat.le_of_not_le h₁); omega
    · have := hdiv (Nat.le_of_not_le h₁); omega

theorem mergeInto_eq_some (h : mergeInto p a n queue = some queue') : ∃ pre w w' post,
    queue = pre ++ w :: post ∧ queue' = pre ++ w' :: post ∧ mergeWith p w a n = some w' := by
  induction queue generalizing queue' with
  | nil => cases h
  | cons x rest ih =>
    rw [mergeInto] at h
    cases hx : mergeWith p x a n with
    | some w' =>
      rw [hx] at h
      cases h
      exact ⟨[], x, w', rest, rfl, rfl, hx⟩
    | none =>
      rw [hx] at h
      obtain ⟨rest', hrest, rfl⟩ := Option.map_eq_some_iff.mp h
      obtain ⟨pre, w, w', post, rfl, rfl, hw⟩ := ih hrest
      exact ⟨x :: pre, w, w', post, rfl, rfl, hw⟩

theorem queued_append_cons {pre post : List DRAMPacket} :
    Queued (pre ++ w :: post) b ↔ w.Covers b ∨ Queued (pre ++ post) b := by
  simp only [Queued, mem_append, mem_cons]
  grind

theorem decodeAddr_spec {now : Nat} {isRead : Bool} : Ensures (decodeAddr p now pkt a n isRead)
    (fun q => q.addr = a ∧ q.size = n) fun _ => True := by
  refine Ensures.ite (fun _ => Ensures.error trivial) fun _ => ?_
  refine (ensures_require trivial).bind fun _ _ => (ensures_require trivial).bind fun _ _ => ?_
  exact (ensures_require trivial).bind fun _ _ => (ensures_require trivial).bind fun _ _ => Ensures.ok ⟨rfl, rfl⟩

theorem nextBurst_eq (hk : p.burstSize = 2 ^ k) (a : Nat) : nextBurst p a = (a / p.burstSize + 1) * p.burstSize := by
  have hor : a ||| (2 ^ k - 1) = 2 ^ k * (a / 2 ^ k) + (2 ^ k - 1) := by
    rw [Nat.two_pow_add_eq_or_of_lt (Nat.sub_lt (Nat.two_pow_pos k) Nat.one_pos)]
    apply Nat.eq_of_testBit_eq
    intro i
    rw [Nat.testBit_or, Nat.testBit_or, Nat.testBit_two_pow_mul, Nat.testBit_div_two_pow]
    by_cases hi : i < k
    · simp [hi]
    · simp [hi, Nat.le_of_not_lt hi]
  have hpos := Nat.two_pow_pos k
  rw [nextBurst, hk, Nat.add_mul, Nat.mul_comm]
  omega

theorem piece_inBurst (hk : p.burstSize = 2 ^ k) : a + burstBytes p pkt a ≤ (a / p.burstSize + 1) * p.burstSize := by
  rw [← nextBurst_eq hk, burstBytes]
  have hle : a ≤ a ||| (p.burstSize - 1) := Nat.left_le_or
  unfold nextBurst
  omega

/-- **One turn**: the bytes of the piece are added.  If all entries are clear of it, they stay in one burst, and
    a new one begins no later than the piece. -/
theorem writeTurn_spec (hk : p.burstSize = 2 ^ k) : Ensures (writeTurn p pkt s a) (fun s' =>
    (∀ b, Queued s'.writeQueue b ↔ Queued s.writeQueue b ∨ (a ≤ b ∧ b < a + burstBytes p pkt a)) ∧
    ((∀ w ∈ s.writeQueue, InOneBurst p w ∧ Clear p w (a, burstBytes p pkt a)) → ∀ w ∈ s'.writeQueue,
      InOneBurst p w ∧ (w ∈ s.writeQueue ∨ w.addr ≤ a))) fun _ => True := by
  have hpiece : a + burstBytes p pkt a ≤ (a / p.burstSize + 1) * p.burstSize := piece_inBurst hk
  unfold writeTurn
  dsimp only
  cases hm : mergeInto p a (burstBytes p pkt a) s.writeQueue with
  | some queue' =>
    obtain ⟨pre, w, w', post, hqueue, rfl, hw⟩ := mergeInto_eq_some hm
    rw [hqueue]
    refine Ensures.ok ⟨fun b => ?_, fun hin x hx => ?_⟩
    · rw [queued_append_cons, queued_append_cons, mergeWith_covers hw]
      tauto
    · have hold : ∀ x ∈ pre ++ post, x ∈ pre ++ w :: post := fun x hx => by
        rw [mem_append, mem_cons]
        exact (mem_append.mp hx).imp_right Or.inr
      have hcases : x = w' ∨ x ∈ pre ++ post := by simpa [or_left_comm] using hx
      rcases hcases with rfl | hx
      · obtain ⟨hburst, hclear⟩ := hin w (by simp)
        exact ⟨mergeWith_inOneBurst hw hburst hpiece hclear, Or.inr (mergeWith_addr_le hw)⟩
      · exact ⟨(hin x (hold x hx)).1, Or.inl (hold x hx)⟩
  | none =>
    refine decodeAddr_spec.bind fun q hq => (ensures_require trivial).bind fun _ _ =>
      Ensures.ok ⟨fun b => ?_, fun hin => ?_⟩
    · rw [queued_append_cons, append_nil, DRAMPacket.Covers, hq.1, hq.2, or_comm]
    · refine forall_mem_append.mpr ⟨fun x hx => ⟨(hin x hx).1, Or.inl hx⟩, forall_mem_singleton.mpr ?_⟩
      rw [InOneBurst, hq.1, hq.2]
      exact ⟨hpiece, Or.inr le_rfl⟩

/-! ## A request -/

/-- The pieces of a request, each with its address and size. -/
def pieces (p : DRAMCtrlParams) (pkt : Pkt) : Nat → Nat → List (Nat × Nat)
  | 0, _ => []
  | n + 1, a => (a, burstBytes p pkt a) :: pieces p pkt n (nextBurst p a)

theorem lt_nextBurst (a : Nat) : a < nextBurst p a := Nat.lt_succ_of_le Nat.left_le_or

theorem le_of_mem_pieces {x : Nat × Nat} (hx : x ∈ pieces p pkt n a) : a ≤ x.1 := by
  induction n generalizing a with
  | zero => cases hx
  | succ n ih =>
    rcases mem_cons.mp hx with rfl | hx
    · exact le_rfl
    · exact Nat.le_trans (lt_nextBurst a).le (ih hx)

/-- Two neighbouring pieces are longer than a burst. -/
def Long (p : DRAMCtrlParams) (pieces : List (Nat × Nat)) : Prop :=
  pieces.IsChain fun x y => p.burstSize < x.2 + y.2

/-- **An entry that begins no later than a piece is clear of the later pieces.** -/
theorem clear_of_le (hk : p.burstSize = 2 ^ k) (hw : InOneBurst p w) (ha : w.addr ≤ a)
    (hlong : Long p (pieces p pkt (n + 1) a)) {x : Nat × Nat} (hx : x ∈ pieces p pkt n (nextBurst p a)) :
    Clear p w x := by
  have hnext := nextBurst_eq hk a
  have hlow := le_of_mem_pieces hx
  have hburst : w.addr + w.size ≤ nextBurst p a := by
    rw [hnext]
    exact Nat.le_trans hw (Nat.mul_le_mul_right _ (Nat.succ_le_succ (Nat.div_le_div_right ha)))
  have hlt := lt_nextBurst (p := p) a
  rintro (htouch | htouch) -
  · -- the entry ends where the next piece begins
    cases n with
    | zero => cases hx
    | succ n =>
      have hpair := (isChain_cons_cons.mp hlong).1
      rcases mem_cons.mp hx with rfl | hx
      · dsimp only [burstBytes] at hpair htouch ⊢
        omega
      · have := le_of_mem_pieces hx
        have := lt_nextBurst (p := p) (nextBurst p a)
        omega
  · omega

/-- Nothing is merged across a border: each two neighbouring pieces of the request are together longer than a
    burst, and so are each piece and each entry of another burst that it touches. -/
def Apart (p : DRAMCtrlParams) (queue : List DRAMPacket) (pieces : List (Nat × Nat)) : Prop :=
  Long p pieces ∧ ∀ w ∈ queue, ∀ x ∈ pieces, Clear p w x

instance (queue : List DRAMPacket) (pieces : List (Nat × Nat)) : Decidable (Apart p queue pieces) :=
  inferInstanceAs (Decidable (List.IsChain _ _ ∧ _))

/-- **The loop**: the bytes of the request in the next `n` bursts are added. -/
theorem writeLoop_spec (hk : p.burstSize = 2 ^ k) : Ensures (writeLoop p pkt n s a) (fun s' =>
    (∀ b, Queued s'.writeQueue b ↔ Queued s.writeQueue b ∨
      (a ≤ b ∧ b < pkt.addr + pkt.size ∧ b / p.burstSize < a / p.burstSize + n)) ∧
    ((∀ w ∈ s.writeQueue, InOneBurst p w) → Apart p s.writeQueue (pieces p pkt n a) →
      ∀ w ∈ s'.writeQueue, InOneBurst p w)) fun _ => True := by
  have hpos : 0 < p.burstSize := hk ▸ Nat.two_pow_pos k
  induction n generalizing s a with
  | zero =>
    refine Ensures.ok ⟨fun b => ⟨Or.inl, fun h => h.resolve_right ?_⟩, fun hin _ => hin⟩
    rintro ⟨hab, -, hlt⟩
    have := Nat.div_le_div_right (c := p.burstSize) hab
    omega
  | succ n ih =>
    refine (writeTurn_spec hk).bind fun s₁ ⟨hbytes, hburst⟩ =>
      (ih (s := s₁) (a := nextBurst p a)).post fun s' ⟨hbytes', hburst'⟩ => ⟨fun b => ?_, ?_⟩
    · -- a byte from `a` on is in the piece, or after it
      have hnext := nextBurst_eq hk a
      have hdiv : nextBurst p a / p.burstSize = a / p.burstSize + 1 := by
        rw [hnext, Nat.mul_div_cancel _ hpos]
      have hlt : b < nextBurst p a ↔ b / p.burstSize < a / p.burstSize + 1 := by
        rw [hnext, Nat.div_lt_iff_lt_mul hpos]
      have hle := lt_nextBurst (p := p) a
      have hsplit : (a ≤ b ∧ b < a + burstBytes p pkt a) ∨ (nextBurst p a ≤ b ∧
          b < pkt.addr + pkt.size ∧ b / p.burstSize < a / p.burstSize + 1 + n) ↔
          a ≤ b ∧ b < pkt.addr + pkt.size ∧ b / p.burstSize < a / p.burstSize + (n + 1) := by
        unfold burstBytes
        omega
      rw [hbytes', hbytes, hdiv, or_assoc, hsplit]
    · rintro hin ⟨hlong, hclear⟩
      have hturn := hburst fun w hw => ⟨hin w hw, hclear w hw _ mem_cons_self⟩
      refine hburst' (fun w hw => (hturn w hw).1) ⟨hlong.of_cons, fun w hw x hx => ?_⟩
      rcases (hturn w hw).2 with hold | ha
      · exact hclear w hold x (mem_cons_of_mem _ hx)
      · exact clear_of_le hk (hturn w hw).1 ha hlong hx

theorem bursts_reach (hk : p.burstSize = 2 ^ k) (hb : b < pkt.addr + pkt.size) :
    b / p.burstSize < pkt.addr / p.burstSize + dramPktCount p pkt := by
  have hpos : 0 < p.burstSize := hk ▸ Nat.two_pow_pos k
  have hmod : pkt.addr &&& (p.burstSize - 1) = pkt.addr % p.burstSize := by
    rw [hk, Nat.and_two_pow_sub_one_eq_mod]
  rw [Nat.div_lt_iff_lt_mul hpos, dramPktCount, divCeil, hmod, Nat.add_mul]
  have haddr := Nat.div_add_mod' pkt.addr p.burstSize
  have hceil := Nat.div_add_mod' (pkt.addr % p.burstSize + pkt.size + p.burstSize - 1) p.burstSize
  have hrest := Nat.mod_lt (pkt.addr % p.burstSize + pkt.size + p.burstSize - 1) hpos
  omega

theorem accessAndRespond_writeQueue {latency : Nat} : Ensures (s.accessAndRespond p pkt latency)
    (fun s' => s'.writeQueue = s.writeQueue) fun _ => True := by
  unfold accessAndRespond
  cases access p pkt with
  | error e => exact trivial
  | ok rsp =>
    refine Ensures.ite (fun _ => ?_) fun _ => Ensures.ok rfl
    exact (ensures_require trivial).bind fun _ _ => Ensures.ok rfl

theorem kick_writeQueue {tick : Nat} : Ensures (s.kick tick)
    (fun s' => s'.writeQueue = s.writeQueue) fun _ => True := by
  refine Ensures.ite (fun _ => Ensures.ok rfl) fun _ => ?_
  exact (ensures_require trivial).bind fun _ _ => Ensures.ok rfl

/-- **A request** adds its bytes to the queue. -/
theorem addToWriteQueue_spec (hk : p.burstSize = 2 ^ k) :
    Ensures (s.addToWriteQueue p pkt (dramPktCount p pkt)) (fun s' =>
      (∀ b, Queued s'.writeQueue b ↔ Queued s.writeQueue b ∨ pkt.Writes b) ∧
      ((∀ w ∈ s.writeQueue, InOneBurst p w) →
        Apart p s.writeQueue (pieces p pkt (dramPktCount p pkt) pkt.addr) →
        ∀ w ∈ s'.writeQueue, InOneBurst p w)) fun _ => True := by
  refine (ensures_require trivial).bind fun _ _ => (writeLoop_spec hk).bind fun s₁ ⟨hbytes, hburst⟩ => ?_
  refine accessAndRespond_writeQueue.bind fun s₂ hs₂ => kick_writeQueue.post fun s₃ hs₃ => ?_
  rw [hs₃, hs₂]
  refine ⟨fun b => ?_, hburst⟩
  rw [hbytes b]
  refine or_congr_right ⟨fun h => ⟨h.1, h.2.1⟩, fun h => ⟨h.1, h.2, bursts_reach hk h.2⟩⟩

/-! ## Sequences of requests -/

/-- A write request is added to the queue. -/
def addWrite (p : DRAMCtrlParams) (s : DRAMCtrl) (pkt : Pkt) : Option DRAMCtrl :=
  (s.addToWriteQueue p pkt (dramPktCount p pkt)).toOption

/-- **Write merging.**  After any sequence of write requests to an empty queue, each of them `Apart` from the
    queue that it meets, the entries have exactly the bytes of the requests, and each lies in one aligned
    burst. -/
theorem write_merging {pkts : List Pkt} (hk : p.burstSize = 2 ^ k) (hempty : s.writeQueue = [])
    (hrun : Run (Guarded (stepOf (addWrite p)) fun s pkt =>
      Apart p s.writeQueue (pieces p pkt (dramPktCount p pkt) pkt.addr)) s pkts s') :
    (∀ b, Queued s'.writeQueue b ↔ ∃ pkt ∈ pkts, pkt.Writes b) ∧ ∀ w ∈ s'.writeQueue, InOneBurst p w := by
  refine Run.inv_hist (P := fun pkts s' =>
    (∀ b, Queued s'.writeQueue b ↔ ∃ pkt ∈ pkts, pkt.Writes b) ∧ ∀ w ∈ s'.writeQueue, InOneBurst p w)
    (fun pkts s pkt s' ⟨hbytes, hburst⟩ hs => ?_) hrun ?_
  · rw [hempty]
    simp [Queued]
  · obtain ⟨hs, hapart⟩ := hs
    obtain ⟨hbytes', hburst'⟩ := (addToWriteQueue_spec hk).of_toOption hs
    refine ⟨fun b => ?_, hburst' hburst hapart⟩
    rw [hbytes']
    grind

/-- A write of `size` bytes at `addr`. -/
def writeOf (id addr size : Nat) : Pkt := ⟨id, .writeReq, addr, size, false, 0⟩

/-- Three writes, of which the second is merged into the first and the third covers two bursts. -/
theorem write_merging_aligned : ∃ s', Run (Guarded (stepOf (addWrite ddr3_1600_x64)) fun s pkt =>
      Apart ddr3_1600_x64 s.writeQueue (pieces ddr3_1600_x64 pkt (dramPktCount ddr3_1600_x64 pkt) pkt.addr))
    (new 0) [writeOf 0 0 16, writeOf 1 16 16, writeOf 2 64 128] s' ∧
    (s'.writeQueue.map fun w => (w.addr, w.size)) = [(0, 32), (64, 64), (128, 64)] ∧
    ∀ w ∈ s'.writeQueue, InOneBurst ddr3_1600_x64 w :=
  run_observe (fun s => s.writeQueue.map fun w => (w.addr, w.size)) [(0, 32), (64, 64), (128, 64)]
    (by decide +kernel) fun _ hrun hobs =>
      ⟨hobs, (write_merging (k := 6) (by decide) rfl hrun).2⟩

/-- **One write that is not aligned**: its two pieces become one entry across the border. -/
theorem write_merging_across : ∃ s', exec (addWrite ddr3_1600_x64) (new 0)
    [writeOf 0 32 64] = some s' ∧ ∃ w ∈ s'.writeQueue, ¬ InOneBurst ddr3_1600_x64 w := by
  refine exec_observe (fun s => s.writeQueue.map fun w => (w.addr, w.size)) [(32, 64)]
    (by decide +kernel) fun s' _ hobs => ?_
  obtain ⟨w, hw, heq⟩ := map_eq_singleton_iff.mp hobs
  obtain ⟨haddr, hsize⟩ := Prod.mk.inj heq
  refine ⟨w, by rw [hw]; exact mem_singleton_self w, ?_⟩
  rw [InOneBurst, haddr, hsize]
  decide

end DRAMCtrl

end NvpSim.Dram
