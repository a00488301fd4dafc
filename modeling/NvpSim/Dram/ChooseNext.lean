/-
  The choice of the next request (`DRAMCtrl::chooseNext`, `reorderQueue`, `minBankPrep`).

  Under FCFS the first packet of an available rank is taken; under FR-FCFS row hits come first, then packets to
  one of the banks that can be activated earliest.  These banks are a mask of 64 BITS, and with more than 64
  banks the shift by the number of the bank is undefined (`chooseNext_iff`).
-/
import NvpSim.Dram.Controller

namespace NvpSim.Dram

open NvpSim.Lib NvpSim.Base.Bitfield NvpSim.Sim List

variable {p : DRAMCtrlParams} {s : DRAMCtrl} {queue : List DRAMPacket} {switched : Bool}

namespace DRAMCtrl

/-- The packets go to banks that there are, and the ticks of activates fit into their type. -/
structure Fits (p : DRAMCtrlParams) (s : DRAMCtrl) (queue : List DRAMPacket) : Prop where
  bank : ∀ q ∈ queue, q.rank < p.ranksPerChannel ∧ q.bank < p.banksPerRank ∧
    q.bankId = p.banksPerRank * q.rank + q.bank
  ticks : ∀ i < p.ranksPerChannel, ∀ j < p.banksPerRank, s.actAt p i j ≤ maxTick

/-- The row of the packet is open. -/
def RowHit (s : DRAMCtrl) (q : DRAMPacket) : Prop := (s.bank q.rank q.bank).openRow = some q.row

/-- **What is chosen**: a packet of an available rank, if there is one, is moved to the front, under
    FR-FCFS a row hit if there is one. -/
structure Chosen (p : DRAMCtrlParams) (s : DRAMCtrl) (queue : List DRAMPacket)
    (r : Option (List DRAMPacket)) : Prop where
  found : r.isSome = true ↔ ∃ q ∈ queue, s.available q = true
  moved : ∀ queue' ∈ r, ∃ pre q post, queue = pre ++ q :: post ∧ queue' = q :: (pre ++ post) ∧
    s.available q = true ∧ (p.memSchedPolicy = .frfcfs →
      s.RowHit q ∨ ∀ x ∈ queue, s.available x = true → ¬ s.RowHit x)

/-! ## The earliest banks -/

/-- A packet that can be issued waits for the bank. -/
def Waiting (s : DRAMCtrl) (queue : List DRAMPacket) (b : Nat) : Prop :=
  ∃ q ∈ queue, s.available q = true ∧ q.bankId = b

theorem setMask_spec {mask : BitVec 64} {b : Nat} (hb : b < 64) : Ensures (setMask mask b)
    (fun mask' => mask' ≠ 0 ∧ ∀ i < 64, mask'.getLsbD i = true → i = b ∨ mask.getLsbD i = true) fun _ => False := by
  unfold setMask
  rw [if_pos hb]
  have hbit := fun i hi => getLsbD_insertBits mask 1 b b i hi
  refine Ensures.ok ⟨fun hzero => ?_, fun i hi hset => ?_⟩
  · have := hbit b hb
    rw [hzero] at this
    simp at this
  · rw [hbit i hi] at hset
    split_ifs at hset with hrange
    · exact Or.inl (by omega)
    · exact Or.inr hset

/-- One of the two masks of `minBankPrep`, and its minimum: it has only banks for which a packet waits,
    and as long as it is empty no minimum has been found. -/
structure MaskOk (s : DRAMCtrl) (queue : List DRAMPacket) (mask : BitVec 64) (minActAt : Nat) : Prop where
  waiting : ∀ i < 64, mask.getLsbD i = true → s.Waiting queue i
  empty : mask = 0 → minActAt = maxTick

/-- The mask to which a bank of rank `i` belongs. -/
def BankPrep.maskOf (p : DRAMCtrlParams) (s : DRAMCtrl) (v : BankPrep) (i : Nat) : BitVec 64 :=
  if i = s.activeRank ∧ 1 < p.ranksPerChannel then v.bankMaskSameRank else v.bankMask

/-- After the banks `done`: both masks, and no mask is empty to which one of these banks with a packet
    belongs. -/
structure Prepped (p : DRAMCtrlParams) (s : DRAMCtrl) (queue : List DRAMPacket)
    (done : List (Nat × Nat)) (v : BankPrep) : Prop where
  other : s.MaskOk queue v.bankMask v.minActAt
  same : s.MaskOk queue v.bankMaskSameRank v.minActAtSameRank
  isMatch : v.sameRankMatch = true → v.bankMaskSameRank ≠ 0
  some : ∀ ij ∈ done, s.Waiting queue (ij.1 * p.banksPerRank + ij.2) → v.maskOf p s ij.1 ≠ 0

theorem MaskOk.set {mask : BitVec 64} {minActAt actAt b : Nat} {c : Prop} [Decidable c]
    (h : s.MaskOk queue mask minActAt) (hb : b < 64) (hw : s.Waiting queue b) :
    Ensures (setMask (if c then 0 else mask) b)
      (fun mask' => mask' ≠ 0 ∧ s.MaskOk queue mask' actAt) fun _ => False := by
  refine (setMask_spec hb).post fun mask' ⟨hne, hset⟩ => ⟨hne, fun i hi hbit => ?_, fun h0 => absurd h0 hne⟩
  rcases hset i hi hbit with rfl | hold
  · exact hw
  · split_ifs at hold
    · simp at hold
    · exact h.waiting i hi hold

theorem MaskOk.ne_zero {mask : BitVec 64} {minActAt actAt : Nat} (h : s.MaskOk queue mask minActAt)
    (hmax : actAt ≤ maxTick) (hlt : ¬ actAt ≤ minActAt) : mask ≠ 0 := by
  intro h0
  have := h.empty h0
  omega

section

variable (hfit : s.Fits p queue) (h64 : p.ranksPerChannel * p.banksPerRank ≤ 64)

include hfit h64

theorem prepTurn_spec {done : List (Nat × Nat)} {v : BankPrep} {i j : Nat} (hi : i < p.ranksPerChannel)
    (hj : j < p.banksPerRank) (h : s.Prepped p queue done v) :
    Ensures (prepTurn p s queue v (i, j)) (s.Prepped p queue (done ++ [(i, j)])) fun _ => False := by
  obtain ⟨hother, hsame, hmatch, hsome⟩ := h
  have hid : i * p.banksPerRank + j < 64 :=
    (Nat.add_lt_add_left hj _).trans_le ((Nat.succ_mul ..).symm ▸ Nat.mul_le_mul_right _ hi |>.trans h64)
  have hmem : ∀ {P : Nat × Nat → Prop}, (∀ ij ∈ done, P ij) → P (i, j) → ∀ ij ∈ done ++ [(i, j)], P ij :=
    fun hd hij => forall_mem_append.mpr ⟨hd, forall_mem_singleton.mpr hij⟩
  unfold prepTurn
  refine Ensures.ite (fun hany => ?_) fun hnone => Ensures.ok ⟨hother, hsame, hmatch, ?_⟩
  · obtain ⟨q, hq, hcond⟩ := any_eq_true.mp hany
    obtain ⟨hav, hqid⟩ : s.available q = true ∧ q.bankId = i * p.banksPerRank + j := by simpa using hcond
    have hw : s.Waiting queue (i * p.banksPerRank + j) := ⟨q, hq, hav, hqid⟩
    have havail : (s.ranks i).isAvailable = true := by
      obtain ⟨-, hbank, hid'⟩ := hfit.bank q hq
      have hrank : q.rank = i := by
        rw [hid', Nat.mul_comm i] at hqid
        have hdiv := congrArg (· / p.banksPerRank) hqid
        rwa [Nat.mul_add_div (by omega), Nat.mul_add_div (by omega), Nat.div_eq_of_lt hbank,
          Nat.div_eq_of_lt hj] at hdiv
      exact hrank ▸ hav
    rw [require_bind havail]
    have hmax := hfit.ticks i hi j hj
    refine Ensures.ite (fun hact => ?_) fun hact => ?_
    · refine Ensures.ite (fun hle => ?_) fun hlt => ?_
      · refine (hsame.set hid hw).bind fun mask' ⟨hne, hok⟩ => Ensures.ok ⟨hother, hok, fun _ => hne, ?_⟩
        unfold BankPrep.maskOf at hsome ⊢
        refine hmem (fun ij hij hwait => ?_) fun _ => by rw [if_pos hact]; exact hne
        have := hsome ij hij hwait
        split_ifs at this ⊢
        exacts [hne, this]
      · refine Ensures.ok ⟨hother, hsame, hmatch, hmem hsome fun _ => ?_⟩
        rw [BankPrep.maskOf, if_pos hact]
        exact hsame.ne_zero hmax hlt
    · refine Ensures.ite (fun hle => ?_) fun hlt => ?_
      · refine (hother.set hid hw).bind fun mask' ⟨hne, hok⟩ => Ensures.ok ⟨hok, hsame, hmatch, ?_⟩
        unfold BankPrep.maskOf at hsome ⊢
        refine hmem (fun ij hij hwait => ?_) fun _ => by rw [if_neg hact]; exact hne
        have := hsome ij hij hwait
        split_ifs at this ⊢
        exacts [this, hne]
      · refine Ensures.ok ⟨hother, hsame, hmatch, hmem hsome fun _ => ?_⟩
        rw [BankPrep.maskOf, if_neg hact]
        exact hother.ne_zero hmax hlt
  · refine hmem hsome fun hwait => absurd ?_ hnone
    obtain ⟨q, hq, hav, hqid⟩ := hwait
    exact any_eq_true.mpr ⟨q, hq, by simp [hav, hqid]⟩

/-- **The earliest banks**: for each one a packet waits, and if a packet waits there is one. -/
theorem minBankPrep_spec : Ensures (s.minBankPrep p queue switched) (fun mask =>
      (∀ i < 64, mask.getLsbD i = true → s.Waiting queue i) ∧
      ((∃ q ∈ queue, s.available q = true) → mask ≠ 0)) fun _ => False := by
  have hempty : s.MaskOk queue 0 maxTick := ⟨fun i _ hi => by simp at hi, fun _ => rfl⟩
  refine (Ensures.foldlM_hist (P := s.Prepped p queue) (d := [])
    ⟨hempty, hempty, fun h => absurd h Bool.false_ne_true, nofun⟩ fun done v ij hij h => ?_).bind fun v h => ?_
  · obtain ⟨i, hi, hij⟩ := mem_flatMap.mp hij
    obtain ⟨j, hj, rfl⟩ := mem_map.mp hij
    exact prepTurn_spec hfit h64 (mem_range.mp hi) (mem_range.mp hj) h
  · have hsome : (∃ q ∈ queue, s.available q = true) → v.bankMask = 0 → v.bankMaskSameRank ≠ 0 := by
      rintro ⟨q, hq, hav⟩ h0
      obtain ⟨hrank, hbank, hid⟩ := hfit.bank q hq
      have hmem : (q.rank, q.bank) ∈ [] ++ bankPairs p := mem_flatMap.mpr
        ⟨q.rank, mem_range.mpr hrank, mem_map.mpr ⟨q.bank, mem_range.mpr hbank, rfl⟩⟩
      have hne := h.some _ hmem ⟨q, hq, hav, by rw [hid, Nat.mul_comm]⟩
      unfold BankPrep.maskOf at hne
      split_ifs at hne
      · exact hne
      · exact absurd h0 hne
    refine Ensures.ite (fun hc => Ensures.ok ⟨h.same.waiting, fun hq => ?_⟩) fun hc =>
      Ensures.ok ⟨h.other.waiting, fun _ h0 => hc (Or.inl h0)⟩
    rcases hc with h0 | ⟨-, hmatch, -⟩
    · exact hsome hq h0
    · exact h.isMatch hmatch

end

/-! ## The scan -/

/-- What the scan has selected in `done`, if `mask` has the earliest banks: a row hit if it has seen one,
    and otherwise the first packet that goes to an earliest bank. -/
structure Scanned (s : DRAMCtrl) (mask : BitVec 64) (done : List DRAMPacket) (v : Reorder) : Prop where
  earliest : v.earliestBanks = 0 ∨ v.earliestBanks = mask
  found : v.foundEarliestPkt = true ∨ v.foundPreppedDiffRankPkt = true → v.selected ≠ none
  selected : ∀ k, v.selected = some k → ∃ q, done[k]? = some q ∧ s.available q = true ∧
    (v.foundPreppedDiffRankPkt = true → s.RowHit q)
  closed : v.foundPreppedDiffRankPkt = false → ∀ x ∈ done, s.available x = true → ¬ s.RowHit x
  passed : v.selected = none → ∀ x ∈ done, s.available x = true → mask.getLsbD x.bankId = false

/-- What is selected in the queue. -/
def Selected (p : DRAMCtrlParams) (s : DRAMCtrl) (queue : List DRAMPacket) : Option Nat → Prop
  | none => ∀ x ∈ queue, s.available x = false
  | some k => ∃ q, queue[k]? = some q ∧ s.available q = true ∧ (p.memSchedPolicy = .frfcfs →
      s.RowHit q ∨ ∀ x ∈ queue, s.available x = true → ¬ s.RowHit x)

theorem inMask_eq {mask : BitVec 64} {b : Nat} (hb : b < 64) : inMask mask b = .ok (mask.getLsbD b) := by
  have hbits : (bits mask b b != 0) = mask.getLsbD b := by
    cases hbit : mask.getLsbD b with
    | false =>
      have hzero : bits mask b b = 0 := BitVec.eq_of_getLsbD_eq fun i _ => by
        rw [getLsbD_bits]
        by_cases hi : i = 0
        · simp [hi, hbit]
        · simp [hi]
      rw [hzero]
      rfl
    | true =>
      refine bne_iff_ne.mpr fun hzero => ?_
      have := getLsbD_bits mask b b 0
      rw [hzero] at this
      simp [hbit] at this
  rw [inMask, if_pos hb, hbits]

theorem Scanned.skip {mask : BitVec 64} {done : List DRAMPacket} {v : Reorder} {q : DRAMPacket}
    (h : s.Scanned mask done v) (hclosed : v.foundPreppedDiffRankPkt = false → s.available q = true → ¬ s.RowHit q)
    (hpassed : v.selected = none → s.available q = true → mask.getLsbD q.bankId = false) :
    s.Scanned mask (done ++ [q]) v := by
  refine ⟨h.earliest, h.found, fun k hk => ?_, fun hp => ?_, fun hn => ?_⟩
  · obtain ⟨x, hx, hrest⟩ := h.selected k hk
    exact ⟨x, by rw [getElem?_append_left (List.getElem?_eq_some_iff.mp hx).1, hx], hrest⟩
  · exact forall_mem_append.mpr ⟨h.closed hp, forall_mem_singleton.mpr (hclosed hp)⟩
  · exact forall_mem_append.mpr ⟨h.passed hn, forall_mem_singleton.mpr (hpassed hn)⟩

/-- **The scan** selects a packet if there is one, and a row hit if there is one. -/
theorem reorderLoop_spec {mask : BitVec 64} (hmask : s.minBankPrep p queue switched = .ok mask)
    (hids : ∀ q ∈ queue, q.bankId < 64) (hhas : ∀ i < 64, mask.getLsbD i = true → s.Waiting queue i)
    (hne : (∃ q ∈ queue, s.available q = true) → mask ≠ 0) {done rest : List DRAMPacket} {v : Reorder}
    (hqueue : queue = done ++ rest) (h : s.Scanned mask done v) :
    Ensures (s.reorderLoop p queue switched done.length rest v) (s.Selected p queue) fun _ => False := by
  induction rest generalizing done v with
  | nil =>
    rw [append_nil] at hqueue
    subst hqueue
    refine Ensures.ok ?_
    cases hsel : v.selected with
    | none =>
      intro x hx
      by_contra hav
      rw [Bool.not_eq_false] at hav
      -- some earliest bank has a packet, which has not been passed over
      obtain ⟨i, hi, hbit⟩ : ∃ i < 64, mask.getLsbD i = true := by
        by_contra hno
        refine hne ⟨x, hx, hav⟩ (BitVec.eq_of_getLsbD_eq fun i hi => ?_)
        have := fun hbit => hno ⟨i, hi, hbit⟩
        simpa using this
      obtain ⟨q, hq, hqav, rfl⟩ := hhas i hi hbit
      rw [h.passed hsel q hq hqav] at hbit
      cases hbit
    | some k =>
      obtain ⟨q, hq, hav, hhit⟩ := h.selected k hsel
      refine ⟨q, hq, hav, fun _ => ?_⟩
      cases hp : v.foundPreppedDiffRankPkt with
      | true => exact Or.inl (hhit hp)
      | false => exact Or.inr (h.closed hp)
  | cons q rest ih =>
    have hq : q ∈ queue := by rw [hqueue]; simp
    have hget : (done ++ [q])[done.length]? = some q := by simp
    have hlen : (done ++ [q]).length = done.length + 1 := by simp
    have hnext : ∀ {v' : Reorder}, s.Scanned mask (done ++ [q]) v' →
        Ensures (s.reorderLoop p queue switched (done.length + 1) rest v') (s.Selected p queue)
          fun _ => False := fun h' => hlen ▸ ih (by rw [hqueue]; simp) h'
    rw [reorderLoop]
    refine Ensures.ite (fun hav => ?_) fun hav => ?_
    · exact hnext (h.skip (fun _ hav' => by simp [hav'] at hav) fun _ hav' => by simp [hav'] at hav)
    replace hav : s.available q = true := by simpa using hav
    refine Ensures.ite (fun hhit => ?_) fun hhit => ?_
    · refine Ensures.ite (fun _ => Ensures.ok ?_) fun _ => Ensures.ite (fun hp => ?_) fun hp => ?_
      · exact ⟨q, by rw [hqueue]; simp, hav, fun _ => Or.inl hhit⟩
      · refine hnext (h.skip (fun hf => ?_) fun hn => absurd hn (h.found (Or.inr hp)))
        rw [hp] at hf
        cases hf
      · refine hnext ⟨h.earliest, nofun, fun k hk => ?_, nofun, nofun⟩
        cases hk
        exact ⟨q, hget, hav, fun _ => hhit⟩
    · refine Ensures.ite (fun hfound => ?_) fun hfound => ?_
      · rw [Bool.or_eq_true] at hfound
        exact hnext (h.skip (fun _ _ => hhit) fun hn => absurd hn (h.found hfound))
      have hearliest : s.earliest p queue switched v = .ok mask := by
        unfold DRAMCtrl.earliest
        split_ifs with h0
        · exact hmask
        · rw [h.earliest.resolve_left h0]
      rw [hearliest]
      show Ensures (inMask mask q.bankId >>= _) _ _
      rw [inMask_eq (hids q hq)]
      cases hbit : mask.getLsbD q.bankId with
      | true =>
        refine hnext ⟨Or.inr rfl, nofun, fun k hk => ?_, fun hp => ?_, nofun⟩
        · cases hk
          exact ⟨q, hget, hav, fun hp => absurd (show v.foundPreppedDiffRankPkt = true from hp) (by
            simp_all)⟩
        · exact forall_mem_append.mpr ⟨h.closed hp, forall_mem_singleton.mpr fun _ => hhit⟩
      | false =>
        have h' : s.Scanned mask done { v with earliestBanks := mask } :=
          { h with earliest := Or.inr rfl }
        exact hnext (h'.skip (fun _ _ => hhit) fun _ _ => hbit)

/-! ## The choice -/

theorem toFront_eq {k : Nat} {q : DRAMPacket} (h : queue[k]? = some q) :
    ∃ pre post, queue = pre ++ q :: post ∧ toFront queue k = q :: (pre ++ post) := by
  refine ⟨queue.take k, queue.drop (k + 1), ?_, ?_⟩
  · obtain ⟨hk, rfl⟩ := List.getElem?_eq_some_iff.mp h
    rw [← drop_eq_getElem_cons hk, take_append_drop]
  · rw [toFront, h, eraseIdx_eq_take_drop_succ]
    rfl

theorem Selected.chosen {sel : Option Nat} (h : s.Selected p queue sel) :
    s.Chosen p queue (sel.map (toFront queue)) := by
  cases sel with
  | none =>
    refine ⟨⟨nofun, fun ⟨q, hq, hav⟩ => ?_⟩, nofun⟩
    rw [h q hq] at hav
    cases hav
  | some k =>
    obtain ⟨q, hq, hav, hhit⟩ := h
    obtain ⟨pre, post, hqueue, hfront⟩ := toFront_eq hq
    refine ⟨⟨fun _ => ⟨q, mem_of_getElem? hq, hav⟩, fun _ => rfl⟩, fun queue' hr => ?_⟩
    cases hr
    exact ⟨pre, q, post, hqueue, hfront, hav, hhit⟩

theorem reorderQueue_spec (hfit : s.Fits p queue) (h64 : p.ranksPerChannel * p.banksPerRank ≤ 64) :
    Ensures (s.reorderQueue p queue switched) (s.Chosen p queue) fun _ => False := by
  obtain ⟨mask, hmask, hhas, hsome⟩ := (minBankPrep_spec hfit h64).exists_ok
  have hids : ∀ q ∈ queue, q.bankId < 64 := by
    intro q hq
    obtain ⟨hrank, hbank, hid⟩ := hfit.bank q hq
    have := Nat.mul_le_mul_right p.banksPerRank (Nat.succ_le_of_lt hrank)
    rw [Nat.succ_mul] at this
    rw [hid, Nat.mul_comm]
    omega
  have hstart : s.Scanned mask [] ⟨0, false, false, none⟩ :=
    ⟨Or.inl rfl, by simp, by simp, by simp, by simp⟩
  exact (reorderLoop_spec hmask hids hhas hsome rfl hstart).bind fun sel hsel => Ensures.ok hsel.chosen

theorem chooseNext_spec (hne : queue ≠ []) (hfit : s.Fits p queue)
    (h : p.memSchedPolicy = .fcfs ∨ p.ranksPerChannel * p.banksPerRank ≤ 64) :
    Ensures (s.chooseNext p queue switched) (s.Chosen p queue) fun _ => False := by
  unfold chooseNext
  rw [require_bind hne]
  split
  · next q =>
    refine Ensures.ok ?_
    cases hav : s.available q with
    | true =>
      have hsel : s.Selected p [q] (some 0) := ⟨q, rfl, hav, fun _ => by
        by_cases hhit : s.RowHit q <;> simp [hhit]⟩
      exact hsel.chosen
    | false =>
      have hsel : s.Selected p [q] none := by simpa [Selected] using hav
      exact hsel.chosen
  · cases hp : p.memSchedPolicy with
    | fcfs =>
      refine Ensures.ok (Selected.chosen ?_)
      cases hfind : queue.findIdx? s.available with
      | none => simpa [Selected] using hfind
      | some k =>
        obtain ⟨hk, hav, -⟩ := findIdx?_eq_some_iff_getElem.mp hfind
        exact ⟨queue[k], getElem?_eq_getElem hk, hav, fun hf => by rw [hp] at hf; cases hf⟩
    | frfcfs => exact reorderQueue_spec hfit (h.resolve_left (by rw [hp]; decide))

/-- A packet for bank number 64. -/
def farPacket (p : DRAMCtrlParams) : DRAMPacket :=
  ⟨0, ⟨0, .readReq, 0, 64, false, 0⟩, true, 64 / p.banksPerRank, 64 % p.banksPerRank, 0, 64, 0, 64⟩

theorem farPacket_fails (hpolicy : p.memSchedPolicy = .frfcfs) (r : Option (List DRAMPacket)) :
    (new 0).chooseNext p [farPacket p, farPacket p] false ≠ .ok r := by
  intro hr
  unfold chooseNext at hr
  rw [hpolicy] at hr
  have hav : (!(new 0).available (farPacket p)) = false := rfl
  have hclosed : ((new 0).bank (farPacket p).rank (farPacket p).bank).openRow ≠ some (farPacket p).row :=
    nofun
  rw [reorderQueue, reorderLoop, if_neg (by rw [hav]; decide), if_neg hclosed] at hr
  cases hmask : (new 0).earliest p [farPacket p, farPacket p] false ⟨0, false, false, none⟩ with
  | error e | ok mask =>
    rw [hmask] at hr
    cases hr

/-- **The choice of the next request.**  It is right for every state and queue if and only if requests are
    taken first come first served, or there are at most 64 banks. -/
theorem chooseNext_iff : (∀ (s : DRAMCtrl) (queue : List DRAMPacket) (switched : Bool), queue ≠ [] →
      s.Fits p queue → ∃ r, s.chooseNext p queue switched = .ok r ∧ s.Chosen p queue r) ↔
    p.memSchedPolicy = .fcfs ∨ p.ranksPerChannel * p.banksPerRank ≤ 64 := by
  constructor
  · intro h
    by_contra hno
    obtain ⟨hpolicy, h64⟩ := not_or.mp hno
    replace hpolicy : p.memSchedPolicy = .frfcfs := by
      cases hp : p.memSchedPolicy with
      | fcfs => exact absurd hp hpolicy
      | frfcfs => rfl
    have hbanks : 0 < p.banksPerRank := Nat.pos_of_ne_zero fun h0 => by rw [h0] at h64; omega
    have hrank : 64 / p.banksPerRank < p.ranksPerChannel :=
      (Nat.div_lt_iff_lt_mul hbanks).mpr (Nat.not_le.mp h64)
    have hfar : Fits p (new 0) [farPacket p, farPacket p] := by
      refine ⟨fun q hq => ?_, fun i _ j _ => ?_⟩
      · obtain rfl : q = farPacket p := by simpa using hq
        exact ⟨hrank, Nat.mod_lt _ hbanks, (Nat.div_add_mod 64 p.banksPerRank).symm⟩
      · exact Nat.zero_le _
    obtain ⟨r, hr, -⟩ := h _ _ false (by simp) hfar
    exact farPacket_fails hpolicy r hr
  · intro h s queue switched hne hfit
    exact (chooseNext_spec hne hfit h).exists_ok

/-- `DDR3_1600_x64` with 64 banks in each of its two ranks. -/
def manyBanks : DRAMCtrlParams := { ddr3_1600_x64 with banksPerRank := 64 }

/-- Two packets for the first bank of the second rank. -/
theorem chooseNext_undefined : manyBanks.Accepted ∧
    (new 0).chooseNext manyBanks [farPacket manyBanks, farPacket manyBanks] false =
      .error (.undefined .minBankPrep) :=
  ⟨⟨by decide, by decide, by decide, by decide, by decide, by decide, by decide, by decide, by decide,
    by decide⟩, by decide +kernel⟩

end DRAMCtrl

end NvpSim.Dram
