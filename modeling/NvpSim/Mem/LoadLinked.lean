/-
  Load-linked and store-conditional at the memory.

  The list of reservations is compared with the HISTORY of requests.  What the list records is that a context's
  last load-linked was to a granule and that no store the list check SEES (`Clears`) followed: not a swap, and
  starting in that granule (`Reserved`, `storeCond_result`).  What atomicity asks is that no store TOUCHED the
  granule (`Linked`).
-/
import NvpSim.Lib.Run
import NvpSim.Mem.AbstractMem

namespace NvpSim.Mem

open NvpSim.Lib LockedAddr List Option

/-! ## The history of requests -/

/-- A request as the memory got it, and whether its bytes were stored. -/
structure Served where
  pkt : Packet
  stored : Bool

/-- The memory, and what it served so far, the newest first. -/
structure Traced where
  mem : AbstractMemory
  log : List Served

namespace Traced

/-- Before the first request no context holds a reservation. -/
def start (m : AbstractMemory) : Traced := ⟨{ m with lockedAddrList := [] }, []⟩

/-- Serve a request. -/
def step (t : Traced) (pkt : Packet) : Option Traced :=
  (t.mem.access pkt).map fun r => ⟨r.1, ⟨pkt, t.mem.stores pkt⟩ :: t.log⟩

end Traced

/-- Reads, writes, swaps, load-linkeds and store-conditionals that reach the memory as the context
    issued them: not inhibited, at the address of their request, of at least one byte. -/
def Direct (pkt : Packet) : Prop :=
  pkt.cmd ∈ [MemCmd.readReq, .writeReq, .swapReq, .loadLockedReq, .storeCondReq] ∧
    pkt.memInhibitAsserted = false ∧ pkt.req.paddr = pkt.addr ∧ 0 < pkt.size

instance (pkt : Packet) : Decidable (Direct pkt) := inferInstanceAs (Decidable (_ ∧ _ ∧ _ ∧ _))

namespace Served

/-- A load-linked by context `c`. -/
def links (e : Served) (c : Int) : Bool :=
  e.pkt.cmd = .loadLockedReq && e.pkt.req.contextId = c

/-- A store to some byte of granule `g`. -/
def Touches (e : Served) (g : Addr) : Prop :=
  e.stored = true ∧ ∃ a, e.pkt.addr ≤ a ∧ a < e.pkt.addr + e.pkt.size ∧ mask a = g

/-- A store that the list check sees: not a swap, and its first byte is in granule `g`. -/
def Clears (e : Served) (g : Addr) : Prop :=
  e.stored = true ∧ e.pkt.cmd ≠ .swapReq ∧ mask e.pkt.addr = g

theorem Clears.touches {e : Served} {g : Addr} (h : e.Clears g) (hsize : 0 < e.pkt.size) : e.Touches g :=
  ⟨h.1, e.pkt.addr, Nat.le_refl _, Nat.lt_add_of_pos_right hsize, h.2.2⟩

end Served

/-- The granule of the last load-linked of context `c`, and what was served since. -/
def sinceLink (c : Int) : List Served → Option (Addr × List Served)
  | [] => none
  | e :: log =>
    if e.links c then some (mask e.pkt.addr, [])
    else (sinceLink c log).map fun (g, since) => (g, e :: since)

/-- **The reservation as atomicity asks for it**: the last load-linked of context `c` was to granule
    `g`, and no store has touched `g` since. -/
def Linked (log : List Served) (c : Int) (g : Addr) : Prop :=
  ∃ since, sinceLink c log = some (g, since) ∧ ∀ e ∈ since, ¬ e.Touches g

/-- The reservation as the list of the memory keeps it. -/
def Reserved (log : List Served) (c : Int) (g : Addr) : Prop :=
  ∃ since, sinceLink c log = some (g, since) ∧ ∀ e ∈ since, ¬ e.Clears g

/-- If stores have touched granule `g` since the last load-linked of context `c` to it, the list
    check saw one of them. -/
def Observed (log : List Served) (c : Int) (g : Addr) : Prop :=
  ∀ since, sinceLink c log = some (g, since) → (∃ e ∈ since, e.Touches g) → ∃ e ∈ since, e.Clears g

variable {log : List Served} {e : Served}

theorem mem_of_sinceLink {c : Int} {g : Addr} {since : List Served}
    (h : sinceLink c log = some (g, since)) (he : e ∈ since) : e ∈ log := by
  induction log generalizing since with
  | nil => cases h
  | cons x log ih =>
    unfold sinceLink at h
    split at h
    · cases h; cases he
    · obtain ⟨⟨g', since'⟩, hlog, heq⟩ := map_eq_some_iff.mp h
      cases heq
      rcases mem_cons.mp he with rfl | he
      · exact mem_cons_self
      · exact mem_cons_of_mem _ (ih hlog he)

theorem reserved_cons {c : Int} {g : Addr} (h : e.links c = false) :
    Reserved (e :: log) c g ↔ Reserved log c g ∧ ¬ e.Clears g := by
  unfold Reserved
  rw [sinceLink, if_neg (by simp [h])]
  constructor
  · rintro ⟨since, hsince, hclear⟩
    obtain ⟨⟨g', since'⟩, hlog, heq⟩ := map_eq_some_iff.mp hsince
    cases heq
    exact ⟨⟨since', hlog, (forall_mem_cons.mp hclear).2⟩, hclear e mem_cons_self⟩
  · rintro ⟨⟨since, hlog, hclear⟩, he⟩
    exact ⟨e :: since, by rw [hlog]; rfl, forall_mem_cons.mpr ⟨he, hclear⟩⟩

theorem reserved_cons_links {c : Int} {g : Addr} (h : e.links c = true) :
    Reserved (e :: log) c g ↔ g = mask e.pkt.addr := by
  unfold Reserved
  rw [sinceLink, if_pos h]
  constructor
  · rintro ⟨since, hsince, -⟩
    cases hsince
    rfl
  · rintro rfl
    exact ⟨[], rfl, by simp⟩

/-! ## The list of reservations -/

section Relock

variable {req : Request} {ls ls' : List LockedAddr} {x : LockedAddr}

theorem relock_eq_none : relock req ls = none ↔ ∀ l ∈ ls, l.contextId ≠ req.contextId := by
  induction ls with
  | nil => simp [relock]
  | cons l ls ih =>
    unfold relock
    by_cases hl : l.contextId = req.contextId
    · simp [matchesContext, hl]
    · simp [matchesContext, hl, ih]

theorem relock_spec (hnd : (ls.map contextId).Nodup) (h : relock req ls = some ls') :
    ls'.map contextId = ls.map contextId ∧
      ∀ x, x ∈ ls' ↔ x = ofRequest req ∨ (x ∈ ls ∧ x.contextId ≠ req.contextId) := by
  induction ls generalizing ls' with
  | nil => cases h
  | cons l ls ih =>
    obtain ⟨hl, hls⟩ := nodup_cons.mp hnd
    unfold relock at h
    split at h
    · rename_i hmatch
      have hctx : l.contextId = req.contextId := by simpa [matchesContext] using hmatch
      cases h
      refine ⟨rfl, fun x => ?_⟩
      have hrest : ∀ y ∈ ls, y.contextId ≠ req.contextId := by
        intro y hy hc
        exact hl (List.mem_map.mpr ⟨y, hy, hc.trans hctx.symm⟩)
      rw [mem_cons, mem_cons, ofRequest, ← hctx]
      constructor
      · rintro (rfl | hx)
        · exact Or.inl rfl
        · exact Or.inr ⟨Or.inr hx, hctx ▸ hrest x hx⟩
      · rintro (rfl | ⟨rfl | hx, hne⟩)
        · exact Or.inl rfl
        · exact absurd rfl hne
        · exact Or.inr hx
    · rename_i hmatch
      have hctx : l.contextId ≠ req.contextId := by simpa [matchesContext] using hmatch
      obtain ⟨ls₁, hls₁, rfl⟩ := map_eq_some_iff.mp h
      obtain ⟨hmap, hmem⟩ := ih hls hls₁
      refine ⟨by rw [map_cons, map_cons, hmap], fun x => ?_⟩
      rw [mem_cons, mem_cons, hmem]
      constructor
      · rintro (rfl | rfl | ⟨hx, hne⟩)
        · exact Or.inr ⟨Or.inl rfl, hctx⟩
        · exact Or.inl rfl
        · exact Or.inr ⟨Or.inr hx, hne⟩
      · rintro (rfl | ⟨rfl | hx, hne⟩)
        · exact Or.inr (Or.inl rfl)
        · exact Or.inl rfl
        · exact Or.inr (Or.inr ⟨hx, hne⟩)

end Relock

theorem trackLoadLocked_spec {m : AbstractMemory} (pkt : Packet) (hnd : (m.lockedAddrList.map contextId).Nodup) :
    ((m.trackLoadLocked pkt).lockedAddrList.map contextId).Nodup ∧ ∀ x, x ∈ (m.trackLoadLocked pkt).lockedAddrList ↔
        x = ofRequest pkt.req ∨ (x ∈ m.lockedAddrList ∧ x.contextId ≠ pkt.req.contextId) := by
  unfold AbstractMemory.trackLoadLocked
  split
  · rename_i hls
    obtain ⟨hmap, hmem⟩ := relock_spec hnd hls
    exact ⟨hmap ▸ hnd, hmem⟩
  · rename_i hnone
    have hfresh := relock_eq_none.mp hnone
    refine ⟨?_, fun x => ?_⟩
    · refine nodup_cons.mpr ⟨fun hmem => ?_, hnd⟩
      obtain ⟨l, hl, hc⟩ := List.mem_map.mp hmem
      exact hfresh l hl hc
    · rw [mem_cons]
      constructor
      · rintro (rfl | hx)
        · exact Or.inl rfl
        · exact Or.inr ⟨hx, hfresh x hx⟩
      · rintro (rfl | ⟨hx, -⟩)
        · exact Or.inl rfl
        · exact Or.inr hx

/-! ## One request -/

section Access

variable {m m' : AbstractMemory} {pkt pkt' : Packet}

theorem Direct.perform (hd : Direct pkt) (h : m.access pkt = some (m', pkt')) :
    ∃ pkt₁, m.perform pkt = some (m', pkt₁) ∧ pkt'.req = pkt₁.req := by
  unfold AbstractMemory.access at h
  split at h
  · rw [hd.2.1] at h
    obtain ⟨⟨m₁, pkt₁⟩, hperform, heq⟩ := map_eq_some_iff.mp h
    cases heq
    refine ⟨pkt₁, hperform, ?_⟩
    show (if pkt₁.cmd.needsResponse then pkt₁.makeResponse else pkt₁).req = _
    split <;> rfl
  · cases h

theorem perform_store (hcmd : pkt.cmd = .writeReq ∨ pkt.cmd = .storeCondReq) : m.perform pkt = m.write pkt := by
  unfold AbstractMemory.perform
  rcases hcmd with hcmd | hcmd <;> rw [hcmd] <;> rfl

theorem stores_store (hd : Direct pkt) (hcmd : pkt.cmd = .writeReq ∨ pkt.cmd = .storeCondReq) :
    m.stores pkt = m.allowStore pkt := by
  unfold AbstractMemory.stores
  rw [hd.2.1, AbstractMemory.writeOK_eq]
  rcases hcmd with hcmd | hcmd <;> rw [hcmd] <;> simp [AbstractMemory.checkLockedAddrList] <;> rfl

theorem stores_read (hcmd : pkt.cmd = .readReq ∨ pkt.cmd = .loadLockedReq) : m.stores pkt = false := by
  unfold AbstractMemory.stores
  split
  · rfl
  · rcases hcmd with hcmd | hcmd <;> rw [hcmd] <;> rfl

/-- **What a request does to the reservations**: a load-linked moves the record of its context, a
    store that is not a swap erases the records of the granule it starts in, and nothing else
    changes the list. -/
theorem access_locks (hd : Direct pkt) (h : m.access pkt = some (m', pkt')) : m'.lockedAddrList =
      if pkt.cmd = .loadLockedReq then (m.trackLoadLocked pkt).lockedAddrList
      else if m.stores pkt = true ∧ pkt.cmd ≠ .swapReq then
        (m.eraseLocks (mask pkt.addr)).lockedAddrList
      else m.lockedAddrList := by
  obtain ⟨pkt₁, hperform, -⟩ := hd.perform h
  have hcases : pkt.cmd = .readReq ∨ pkt.cmd = .loadLockedReq ∨ pkt.cmd = .swapReq ∨
      (pkt.cmd = .writeReq ∨ pkt.cmd = .storeCondReq) := by
    have := hd.1
    simp only [mem_cons, not_mem_nil, or_false] at this
    tauto
  rcases hcases with hcmd | hcmd | hcmd | hcmd
  · rw [stores_read (Or.inl hcmd), hcmd]
    unfold AbstractMemory.perform AbstractMemory.read at hperform
    rw [hcmd] at hperform
    cases hperform
    rfl
  · rw [if_pos hcmd]
    unfold AbstractMemory.perform AbstractMemory.read at hperform
    rw [hcmd] at hperform
    cases hperform
    rfl
  · rw [hcmd, if_neg (by decide), if_neg (by simp)]
    unfold AbstractMemory.perform AbstractMemory.swap at hperform
    rw [if_pos hcmd] at hperform
    split at hperform
    · cases hperform
    · obtain ⟨overwrite, -, heq⟩ := map_eq_some_iff.mp hperform
      cases heq
      cases overwrite <;> rfl
  · rw [stores_store hd hcmd]
    rw [perform_store hcmd] at hperform
    obtain ⟨-, rfl⟩ := AbstractMemory.write_eq hperform
    have hne : pkt.cmd ≠ .loadLockedReq ∧ pkt.cmd ≠ .swapReq := by
      rcases hcmd with hcmd | hcmd <;> rw [hcmd] <;> decide
    rw [if_neg hne.1, hd.2.2.1]
    cases m.allowStore pkt with
    | false => simp
    | true =>
      simp only [if_true, ne_eq, hne.2, not_false_eq_true, and_self]
      split <;> rfl

theorem storeCond_result (hd : Direct pkt) (hcmd : pkt.cmd = .storeCondReq) (h : m.access pkt = some (m', pkt')) :
    pkt'.req.extraData = 1 ↔ ⟨mask pkt.addr, pkt.req.contextId⟩ ∈ m.lockedAddrList := by
  obtain ⟨pkt₁, hperform, hreq⟩ := hd.perform h
  rw [perform_store (Or.inr hcmd)] at hperform
  obtain ⟨rfl, -⟩ := AbstractMemory.write_eq hperform
  have hllsc : pkt.cmd.isLLSC = true := by rw [hcmd]; rfl
  have hallow : m.allowStore pkt = true ↔ ⟨mask pkt.addr, pkt.req.contextId⟩ ∈ m.lockedAddrList := by
    rw [AbstractMemory.allowStore, if_pos hllsc, List.any_eq_true, hd.2.2.1]
    constructor
    · rintro ⟨l, hl, hmatch⟩
      simp only [matchesContext, Bool.and_eq_true, decide_eq_true_eq] at hmatch
      rw [← hmatch.1, ← hmatch.2]
      exact hl
    · intro hl
      exact ⟨_, hl, by simp [matchesContext]⟩
  rw [hreq, ← hallow, Packet.setStoreResult, if_pos hllsc]
  cases m.allowStore pkt <;> simp [Request.setExtraData]

end Access

/-! ## Every history -/

namespace Traced

/-- One record a context, and the records are the reservations of the history. -/
structure Inv (t : Traced) : Prop where
  nodup : (t.mem.lockedAddrList.map contextId).Nodup
  records : ∀ c g, (⟨g, c⟩ : LockedAddr) ∈ t.mem.lockedAddrList ↔ Reserved t.log c g
  sizes : ∀ e ∈ t.log, 0 < e.pkt.size

/-- **One request keeps the list in step with the history.** -/
theorem Inv.step {t t' : Traced} {pkt : Packet} (h : t.Inv) (hd : Direct pkt)
    (hs : t.step pkt = some t') : t'.Inv := by
  obtain ⟨⟨m', pkt'⟩, haccess, rfl⟩ := map_eq_some_iff.mp hs
  have hlocks := access_locks hd haccess
  have hsizes : ∀ e ∈ (⟨pkt, t.mem.stores pkt⟩ : Served) :: t.log, 0 < e.pkt.size :=
    forall_mem_cons.mpr ⟨hd.2.2.2, h.sizes⟩
  by_cases hll : pkt.cmd = .loadLockedReq
  · -- a load-linked replaces the record of its own context
    rw [if_pos hll] at hlocks
    obtain ⟨hnd, hmem⟩ := trackLoadLocked_spec pkt h.nodup
    refine ⟨by rw [hlocks]; exact hnd, fun c g => ?_, hsizes⟩
    show _ ∈ m'.lockedAddrList ↔ _
    rw [hlocks, hmem]
    by_cases hc : pkt.req.contextId = c
    · subst hc
      rw [reserved_cons_links (by simp [Served.links, hll]), ofRequest, hd.2.2.1]
      simp
    · rw [reserved_cons (by simp [Served.links, hc]), ← h.records]
      have hstored : ¬ Served.Clears ⟨pkt, t.mem.stores pkt⟩ g := by
        rintro ⟨hstored, -⟩
        rw [stores_read (Or.inr hll)] at hstored
        cases hstored
      have hc' : c ≠ pkt.req.contextId := fun hcc => hc hcc.symm
      simp [ofRequest, hc', hstored]
  · -- any other request can only clear records
    rw [if_neg hll] at hlocks
    have hlinks : ∀ c, Served.links ⟨pkt, t.mem.stores pkt⟩ c = false := by
      intro c
      simp [Served.links, hll]
    by_cases hclear : t.mem.stores pkt = true ∧ pkt.cmd ≠ .swapReq
    · rw [if_pos hclear] at hlocks
      refine ⟨?_, fun c g => ?_, hsizes⟩
      · show (m'.lockedAddrList.map contextId).Nodup
        rw [hlocks]
        exact h.nodup.sublist ((filter_sublist).map _)
      · show _ ∈ m'.lockedAddrList ↔ _
        rw [hlocks, reserved_cons (hlinks c), ← h.records]
        simp only [AbstractMemory.eraseLocks, mem_filter, decide_eq_true_eq, Served.Clears,
          hclear.1, hclear.2, ne_eq, not_false_eq_true, true_and]
        exact and_congr_right fun _ => ⟨fun hg hg' => hg hg'.symm, fun hg hg' => hg hg'.symm⟩
    · rw [if_neg hclear] at hlocks
      refine ⟨by rw [hlocks]; exact h.nodup, fun c g => ?_, hsizes⟩
      show _ ∈ m'.lockedAddrList ↔ _
      rw [hlocks, reserved_cons (hlinks c), ← h.records]
      exact ⟨fun hmem => ⟨hmem, fun hcl => hclear ⟨hcl.1, hcl.2.1⟩⟩, fun hmem => hmem.1⟩

theorem inv_start (m : AbstractMemory) : (start m).Inv where
  nodup := nodup_nil
  records := by
    intro c g
    constructor
    · intro hmem; cases hmem
    · rintro ⟨since, hsince, -⟩; cases hsince
  sizes := by intro e he; cases he

theorem inv_of_run {m : AbstractMemory} {pkts : List Packet} {t : Traced}
    (h : Run (Guarded (stepOf step) (fun _ => Direct)) (start m) pkts t) : t.Inv :=
  h.inv (P := Inv) (fun _ _ _ hinv hs => hinv.step hs.2 hs.1) (inv_start m)

end Traced

/-- **Store-conditionals are atomic exactly as far as the check sees the stores.**  After every
    history, a store-conditional of context `c` to granule `g` succeeds if and only if `c`'s last
    load-linked was to `g` and nothing has touched `g` since — PROVIDED that, if stores have
    touched `g` since then, one of them was not a swap and started in `g`; and only then. -/
theorem store_conditional_atomic_iff {m : AbstractMemory} {pkts : List Packet} {t : Traced}
    (h : Run (Guarded (stepOf Traced.step) (fun _ => Direct)) (Traced.start m) pkts t)
    {pkt pkt' : Packet} {m' : AbstractMemory} (hd : Direct pkt) (hcmd : pkt.cmd = .storeCondReq)
    (haccess : t.mem.access pkt = some (m', pkt')) :
    (pkt'.req.extraData = 1 ↔ Linked t.log pkt.req.contextId (mask pkt.addr)) ↔
      Observed t.log pkt.req.contextId (mask pkt.addr) := by
  have hinv := Traced.inv_of_run h
  rw [storeCond_result hd hcmd haccess, hinv.records]
  constructor
  · intro hiff since hsince htouched
    by_contra hnone
    have hres : Reserved t.log pkt.req.contextId (mask pkt.addr) :=
      ⟨since, hsince, fun e he hcl => hnone ⟨e, he, hcl⟩⟩
    obtain ⟨since', hsince', huntouched⟩ := hiff.mp hres
    cases hsince.symm.trans hsince'
    obtain ⟨e, he, htouch⟩ := htouched
    exact huntouched e he htouch
  · intro hobs
    constructor
    · rintro ⟨since, hsince, hclear⟩
      refine ⟨since, hsince, fun e he htouch => ?_⟩
      obtain ⟨e', he', hcl⟩ := hobs since hsince ⟨e, he, htouch⟩
      exact hclear e' he' hcl
    · rintro ⟨since, hsince, huntouched⟩
      refine ⟨since, hsince, fun e he hcl => huntouched e he (hcl.touches ?_)⟩
      exact hinv.sizes e (mem_of_sinceLink hsince he)

/-- A 64-byte memory of zeroes. -/
def demoMemory : AbstractMemory := ⟨0, 63, false, fun _ => 0, []⟩

/-- An 8-byte request at `a` by context `c`. -/
def demoRequest (cmd : MemCmd) (c : Int) (a : Addr) (v : Nat) : Packet :=
  Packet.ofRequest ⟨a, 8, c, 0, false, false, false, false, false⟩ cmd (bytesOf v)

/-- `store_conditional_atomic_iff` at a history where it holds: a plain store of another context
    came between. -/
theorem store_conditional_atomic_iff_plain_store :
    ∃ t m' pkt', exec (guardFn Traced.step (fun _ => Direct)) (Traced.start demoMemory)
        [demoRequest .loadLockedReq 0 0 0, demoRequest .writeReq 1 8 7] = some t ∧
      t.mem.access (demoRequest .storeCondReq 0 0 5) = some (m', pkt') ∧ pkt'.req.extraData = 0 ∧
      ((pkt'.req.extraData = 1 ↔ Linked t.log 0 0) ↔ Observed t.log 0 0) := by
  have hrun : ((exec (guardFn Traced.step (fun _ => Direct)) (Traced.start demoMemory)
      [demoRequest .loadLockedReq 0 0 0, demoRequest .writeReq 1 8 7]).bind fun t =>
        (t.mem.access (demoRequest .storeCondReq 0 0 5)).map fun r => r.2.req.extraData) =
      some 0 := by decide +kernel
  obtain ⟨t, ht, hsc⟩ := bind_eq_some_iff.mp hrun
  obtain ⟨⟨m', pkt'⟩, haccess, hextra⟩ := map_eq_some_iff.mp hsc
  exact ⟨t, m', pkt', ht, haccess, hextra,
    store_conditional_atomic_iff (exec_guardFn_iff.mp ht) (by decide) rfl haccess⟩

/-- **A swap goes unnoticed**: context 0 links a granule, context 1 swaps a word of it, and the
    store-conditional of context 0 still succeeds. -/
theorem store_conditional_after_swap :
    ∃ t m' pkt', exec (guardFn Traced.step (fun _ => Direct)) (Traced.start demoMemory)
        [demoRequest .loadLockedReq 0 0 0, demoRequest .swapReq 1 0 7] = some t ∧ t.mem.bytes 0 = 7 ∧
      t.mem.access (demoRequest .storeCondReq 0 0 5) = some (m', pkt') ∧
      pkt'.req.extraData = 1 ∧ ¬ Linked t.log 0 0 := by
  have hrun : ((exec (guardFn Traced.step (fun _ => Direct)) (Traced.start demoMemory)
      [demoRequest .loadLockedReq 0 0 0, demoRequest .swapReq 1 0 7]).bind fun t =>
        (t.mem.access (demoRequest .storeCondReq 0 0 5)).map fun r =>
          (r.2.req.extraData, t.mem.bytes 0)) = some (1, 7) := by decide +kernel
  have hsince : ((exec (guardFn Traced.step (fun _ => Direct)) (Traced.start demoMemory)
      [demoRequest .loadLockedReq 0 0 0, demoRequest .swapReq 1 0 7]).bind fun t =>
        (sinceLink 0 t.log).map fun r => r.2.map fun e => (e.stored, e.pkt.addr, e.pkt.size)) =
      some [(true, 0, 8)] := by decide +kernel
  obtain ⟨t, ht, hsc⟩ := bind_eq_some_iff.mp hrun
  obtain ⟨⟨m', pkt'⟩, haccess, hextra⟩ := map_eq_some_iff.mp hsc
  simp only [Prod.mk.injEq] at hextra
  refine ⟨t, m', pkt', ht, hextra.2, haccess, hextra.1, ?_⟩
  -- the swap is what was served since the load-linked, and it touched the granule
  rintro ⟨since, hsince', huntouched⟩
  rw [ht, bind_some, hsince'] at hsince
  have hlist : since.map (fun e => (e.stored, e.pkt.addr, e.pkt.size)) = [(true, 0, 8)] :=
    Option.some.inj hsince
  have hmem : (true, 0, 8) ∈ since.map fun e => (e.stored, e.pkt.addr, e.pkt.size) := by
    rw [hlist]
    exact mem_singleton_self _
  obtain ⟨e, he, heq⟩ := List.mem_map.mp hmem
  simp only [Prod.mk.injEq] at heq
  refine huntouched e he ⟨heq.1, 0, Nat.le_of_eq heq.2.1, ?_, rfl⟩
  rw [heq.2.1, heq.2.2]
  decide

end NvpSim.Mem
