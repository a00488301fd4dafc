/-
  Moving pages: `FuncPageTable::remap`, and the three translations cached in front of the table.

  1. **The table.**  `remap` goes through the two regions from page to page and erases each page it has moved,
     so a page of the new region that is the SAME page of the old one, or a LATER one, is lost again
     (`remap_moves_iff`).

  2. **The cache.**  `eraseCacheEntry` clears the first place that holds the page, so no page may be held twice
     (`Mirrors`).  `remap` erases the OLD page only, and `unserialize` does not look at the cache at all.  If the
     new pages are uncached and `unserialize` agrees with the cache (`CacheKept`), every lookup is one in the
     table.
-/
import Mathlib.Data.Nat.ModEq
import NvpSim.Lib.Run
import NvpSim.Mem.PageTable

namespace NvpSim.Mem

open NvpSim.Lib List Option Function

/-- Page `i` of the region that begins at `a`. -/
def pageAt (pageSize a i : Nat) : Nat := (nextPage pageSize)^[i] a

section Pages

variable {pageSize a : Nat}

theorem pageAt_zero : pageAt pageSize a 0 = a := rfl

theorem pageAt_succ (i : Nat) : pageAt pageSize a (i + 1) = pageAt pageSize (nextPage pageSize a) i :=
  rfl

theorem pageAt_eq (ha : a < 2 ^ 64) (i : Nat) : pageAt pageSize a i = (a + i * pageSize) % 2 ^ 64 := by
  induction i generalizing a with
  | zero => rw [pageAt_zero, Nat.zero_mul, Nat.add_zero, Nat.mod_eq_of_lt ha]
  | succ i ih =>
    have hnext : nextPage pageSize a < 2 ^ 64 := Nat.mod_lt _ (by decide)
    rw [pageAt_succ, ih hnext, nextPage, Nat.mod_add_mod, Nat.succ_mul, Nat.add_assoc, Nat.add_comm pageSize]

/-- The pages of a region are distinct. -/
def Distinct (pageSize a n : Nat) : Prop :=
  ∀ i < n, ∀ j < n, pageAt pageSize a i = pageAt pageSize a j → i = j

theorem distinct_of_fits {n : Nat} (ha : a < 2 ^ 64) (hpos : 0 < pageSize)
    (hn : n * pageSize ≤ 2 ^ 64) : Distinct pageSize a n := by
  intro i hi j hj h
  rw [pageAt_eq ha, pageAt_eq ha] at h
  have hlt : ∀ k < n, k * pageSize < 2 ^ 64 := fun k hk =>
    Nat.lt_of_lt_of_le (Nat.mul_lt_mul_of_pos_right hk hpos) hn
  have heq : i * pageSize = j * pageSize :=
    Nat.ModEq.eq_of_lt_of_lt (Nat.ModEq.add_left_cancel' a h) (hlt i hi) (hlt j hj)
  exact Nat.eq_of_mul_eq_mul_right hpos heq

theorem Distinct.tail {n : Nat} (h : Distinct pageSize a (n + 1)) :
    Distinct pageSize (nextPage pageSize a) n := fun i hi j hj heq =>
  Nat.succ.inj (h (i + 1) (by omega) (j + 1) (by omega) heq)

theorem Distinct.ne {n i j : Nat} (h : Distinct pageSize a n) (hi : i < n) (hj : j < n) (hne : i ≠ j) :
    pageAt pageSize a i ≠ pageAt pageSize a j := fun heq => hne (h i hi j hj heq)

theorem pagesOf_mul (hpos : 0 < pageSize) (n : Nat) : pagesOf pageSize (n * pageSize) = n := by
  have hne : (pageSize : Int) ≠ 0 := by omega
  have hlast : ((pageSize : Int) - 1) / pageSize = 0 := Int.ediv_eq_zero_of_lt (by omega) (by omega)
  rw [pagesOf, Int.add_sub_assoc, Int.add_comm, Int.add_mul_ediv_right _ _ hne, hlast, Int.zero_add,
    Int.toNat_natCast]

end Pages

namespace FuncPageTable

variable {pageSize n v w : Nat} {u : TlbEntry} {t t' : FuncPageTable}

/-! ## The loop of `remap` -/

theorem remapPages_succ (n w : Nat) {entry : TlbEntry} (h : t.pTable v = some entry) :
    ∃ (t₁ : FuncPageTable) (e : TlbEntry), t.remapPages pageSize u (n + 1) v w =
        t₁.remapPages pageSize u n (nextPage pageSize v) (nextPage pageSize w) ∧
      t₁.cache = (t.cache.eraseCacheEntry v).updateCache w e ∧
      e = (if w = v then { u with vaddr := w } else { entry with vaddr := w }) ∧
      ∀ a, t₁.pTable a = if a = w then some e else if a = v then none else t.pTable a := by
  obtain ⟨moved, hmoved⟩ : ∃ f, f = Function.update (Function.update t.pTable w (some entry)) v none :=
    ⟨_, rfl⟩
  obtain ⟨e, he⟩ : ∃ e : TlbEntry, e = { (moved w).getD u with vaddr := w } := ⟨_, rfl⟩
  refine ⟨⟨Function.update moved w (some e), (t.cache.eraseCacheEntry v).updateCache w e⟩, e, ?_, rfl, ?_,
    fun a => ?_⟩
  · rw [remapPages, h, he, hmoved]
    rfl
  · by_cases hw : w = v <;> simp [he, hmoved, hw]
  · by_cases haw : a = w
    · simp [haw]
    · by_cases hav : a = v <;> simp [hmoved, haw, hav, update_apply]

theorem remapPages_cons (h : t.remapPages pageSize u (n + 1) v w = some t') :
    ∃ (t₁ : FuncPageTable) (entry e : TlbEntry), t.pTable v = some entry ∧
      t₁.remapPages pageSize u n (nextPage pageSize v) (nextPage pageSize w) = some t' ∧
      t₁.cache = (t.cache.eraseCacheEntry v).updateCache w e ∧
      e = (if w = v then { u with vaddr := w } else { entry with vaddr := w }) ∧
      ∀ a, t₁.pTable a = if a = w then some e else if a = v then none else t.pTable a := by
  cases hentry : t.pTable v with
  | none => simp [remapPages, hentry] at h
  | some entry =>
    obtain ⟨t₁, e, heq, hrest⟩ := remapPages_succ (u := u) n w hentry
    rw [heq] at h
    exact ⟨t₁, entry, e, rfl, h, hrest⟩

theorem remapPages_frame (h : t.remapPages pageSize u n v w = some t') {a : Nat}
    (hv : ∀ i < n, a ≠ pageAt pageSize v i) (hw : ∀ i < n, a ≠ pageAt pageSize w i) : t'.pTable a = t.pTable a := by
  induction n generalizing t v w with
  | zero => cases h; rfl
  | succ n ih =>
    obtain ⟨t₁, entry, e, -, h, -, -, htable⟩ := remapPages_cons h
    rw [ih h (fun i hi => hv (i + 1) (by omega)) fun i hi => hw (i + 1) (by omega), htable]
    exact (if_neg (hw 0 (by omega))).trans (if_neg (hv 0 (by omega)))

theorem remapPages_isSome (hv : ∀ i < n, (t.pTable (pageAt pageSize v i)).isSome = true)
    (hdiff : Distinct pageSize v n) : ∃ t', t.remapPages pageSize u n v w = some t' := by
  induction n generalizing t v w with
  | zero => exact ⟨t, rfl⟩
  | succ n ih =>
    obtain ⟨entry, hentry⟩ : ∃ entry, t.pTable v = some entry :=
      isSome_iff_exists.mp (hv 0 (by omega))
    obtain ⟨t₁, e, heq, -, -, htable⟩ := remapPages_succ (u := u) n w hentry
    rw [heq]
    refine ih (fun i hi => ?_) hdiff.tail
    have hne : pageAt pageSize v (i + 1) ≠ v := hdiff.ne (j := 0) (by omega) (by omega) (by omega)
    rw [← pageAt_succ, htable]
    split
    · rfl
    · exact hv (i + 1) (by omega)

theorem remapPages_old (h : t.remapPages pageSize u n v w = some t') {j : Nat} (hj : j < n)
    (hv : Distinct pageSize v n) (hw : ∀ i, j < i → i < n → pageAt pageSize v j ≠ pageAt pageSize w i) :
    t'.pTable (pageAt pageSize v j) = if pageAt pageSize w j = pageAt pageSize v j then
      some { u with vaddr := pageAt pageSize w j } else none := by
  induction n generalizing t v w j with
  | zero => omega
  | succ n ih =>
    obtain ⟨t₁, entry, e, -, h, -, he, htable⟩ := remapPages_cons h
    cases j with
    | zero =>
      rw [remapPages_frame h (fun i hi => hv.ne (j := i + 1) (by omega) (by omega) (by omega))
        fun i hi => hw (i + 1) (by omega) (by omega), htable, he]
      simp only [pageAt_zero, eq_comm, if_true]
      split <;> simp_all
    | succ j =>
      exact ih h (by omega) hv.tail fun i hi hin => hw (i + 1) (by omega) (by omega)

/-- What `remap` is for: the mappings are in the new region, and nothing else has changed. -/
structure Moved (pageSize v w n : Nat) (t t' : FuncPageTable) : Prop where
  moved : ∀ i < n, t'.pTable (pageAt pageSize w i) =
    (t.pTable (pageAt pageSize v i)).map fun e => { e with vaddr := pageAt pageSize w i }
  gone : ∀ i < n, (∀ j < n, pageAt pageSize w j ≠ pageAt pageSize v i) → t'.pTable (pageAt pageSize v i) = none
  others : ∀ a, (∀ i < n, a ≠ pageAt pageSize v i) → (∀ i < n, a ≠ pageAt pageSize w i) → t'.pTable a = t.pTable a

/-- No page of the new region is the same or a later page of the old one. -/
def Downwards (pageSize v w n : Nat) : Prop :=
  ∀ j < n, ∀ i < j + 1, pageAt pageSize w i ≠ pageAt pageSize v j

instance (pageSize v w n : Nat) : Decidable (Downwards pageSize v w n) :=
  inferInstanceAs (Decidable (∀ j < n, ∀ i < j + 1, _ ≠ _))

theorem remapPages_moved (h : t.remapPages pageSize u n v w = some t') (hv : Distinct pageSize v n)
    (hw : Distinct pageSize w n) (hdown : Downwards pageSize v w n) : Moved pageSize v w n t t' := by
  refine ⟨?_, fun i hi hfree => ?_, fun a => remapPages_frame h⟩
  · induction n generalizing t v w with
    | zero => intro i hi; omega
    | succ n ih =>
      obtain ⟨t₁, entry, e, hentry, h, -, he, htable⟩ := remapPages_cons h
      intro i hi
      cases i with
      | zero =>
        -- the later turns leave the first new page alone
        have hne : w ≠ v := hdown 0 (by omega) 0 (by omega)
        rw [remapPages_frame h (fun i hi => hdown (i + 1) (by omega) 0 (by omega))
            fun i hi => hw.ne (j := i + 1) (by omega) (by omega) (by omega),
          pageAt_zero, pageAt_zero, htable, if_pos rfl, he, if_neg hne, hentry]
        rfl
      | succ i =>
        have hnew : pageAt pageSize v (i + 1) ≠ w := (hdown (i + 1) hi 0 (by omega)).symm
        have hold : pageAt pageSize v (i + 1) ≠ v := hv.ne (j := 0) hi (by omega) (by omega)
        have := ih h hv.tail hw.tail (fun j hj i hi => hdown (j + 1) (by omega) (i + 1) (by omega)) i (by omega)
        rwa [← pageAt_succ, ← pageAt_succ, htable, if_neg hnew, if_neg hold] at this
  · rw [remapPages_old h hi hv fun j _ hj => (hfree j hj).symm, if_neg (hfree i hi)]

/-- **`remap` moves the mappings of a region**, whatever an uninitialised entry holds, if and only if no
    page of the new region is the same or a later page of the old one. -/
theorem remap_moves_iff (hpos : 0 < pageSize) (hsize : n * pageSize < 2 ^ 63) (hv : v < 2 ^ 64)
    (hw : w < 2 ^ 64) (hvp : pageOffset pageSize v = 0) (hwp : pageOffset pageSize w = 0)
    (hmapped : ∀ i < n, (t.pTable (pageAt pageSize v i)).isSome = true) :
    (∀ u, ∃ t', t.remap pageSize u v (n * pageSize) w = some t' ∧
      Moved pageSize v w n t t') ↔ Downwards pageSize v w n := by
  have hdiff : ∀ a < 2 ^ 64, Distinct pageSize a n := fun a ha => distinct_of_fits ha hpos (by omega)
  have hremap : ∀ u, t.remap pageSize u v (n * pageSize) w = t.remapPages pageSize u n v w := fun u => by
    rw [remap, if_pos ⟨hvp, hwp⟩, pagesOf_mul hpos]
  simp only [hremap]
  constructor
  · intro h j hj i hij heq
    obtain ⟨entry, hentry⟩ := isSome_iff_exists.mp (hmapped i (by omega))
    obtain ⟨t', ht', hmoved⟩ := h { entry with paddr := entry.paddr + 1 }
    have hnew := hmoved.moved i (by omega)
    rw [hentry, heq, remapPages_old ht' hj (hdiff v hv) fun k hk hkn =>
      heq ▸ (hdiff w hw).ne (by omega) hkn (by omega)] at hnew
    by_cases hsame : pageAt pageSize w j = pageAt pageSize v j
    · simp [hsame] at hnew
    · rw [if_neg hsame] at hnew
      cases hnew
  · intro hdown u
    obtain ⟨t', ht'⟩ := remapPages_isSome (u := u) (w := w) hmapped (hdiff v hv)
    exact ⟨t', ht', remapPages_moved ht' (hdiff v hv) (hdiff w hw) hdown⟩

/-- Two pages at 0, mapped to 40960 and 45056. -/
def twoPages : FuncPageTable :=
  ⟨fun a => if a = 0 ∨ a = 4096 then some ⟨a, 40960 + a, false, true⟩ else none, .empty ⟨0, 0, false, false⟩⟩

/-- Moved down by one page, around the end of the address space: the second page comes to lie where the
    first one was. -/
theorem remap_down_by_one : ∃ t',
    twoPages.remap 4096 ⟨0, 0, false, false⟩ 0 ((2 : Nat) * (4096 : Nat)) (2 ^ 64 - 4096) = some t' ∧
      Moved 4096 0 (2 ^ 64 - 4096) 2 twoPages t' :=
  (remap_moves_iff (by decide) (by decide) (by decide) (by decide) (by decide) (by decide)
    (by decide)).mpr (by decide +kernel) _

/-- Moved UP by one page, the first of the two pages is lost. -/
theorem remap_up_by_one :
    ((twoPages.remap 4096 ⟨0, 0, false, false⟩ 0 8192 4096).map fun t' => t'.pTable 4096) = some none :=
  rfl

end FuncPageTable

/-! ## The cache -/

namespace PTableCache

variable {c : PTableCache} {f f' : Nat → Option TlbEntry} {a v w : Nat} {e : TlbEntry}

/-- The places of the cache. -/
def slots (c : PTableCache) : List CacheElement := [c.elem0, c.elem1, c.elem2]

/-- No page is cached twice. -/
def Once (c : PTableCache) : Prop :=
  c.slots.Pairwise fun x y => x.valid = true → y.valid = true → x.vaddr ≠ y.vaddr

/-- **What is cached is in the table, and no page is cached twice.** -/
structure Mirrors (c : PTableCache) (f : Nat → Option TlbEntry) : Prop where
  agree : ∀ x ∈ c.slots, x.valid = true → f x.vaddr = some x.entry
  once : c.Once

theorem find_eq_none : c.find a = none ↔ ∀ x ∈ c.slots, x.valid = true → x.vaddr ≠ a := by
  simp only [find, slots, forall_mem_cons, Bool.and_eq_true, beq_iff_eq]
  split
  · simp_all
  split
  · simp_all
  split
  · simp_all
  · simp_all

theorem mem_of_find (h : c.find a = some e) : ∃ x ∈ c.slots, x.valid = true ∧ x.vaddr = a ∧ x.entry = e := by
  simp only [find, Bool.and_eq_true, beq_iff_eq] at h
  split at h
  · exact ⟨c.elem0, by simp [slots], by simp_all⟩
  split at h
  · exact ⟨c.elem1, by simp [slots], by simp_all⟩
  split at h
  · exact ⟨c.elem2, by simp [slots], by simp_all⟩
  · cases h

theorem once_erase (h : c.Once) (v : Nat) : (c.eraseCacheEntry v).Once ∧
    ∀ x ∈ (c.eraseCacheEntry v).slots, x.valid = true → x ∈ c.slots ∧ x.vaddr ≠ v := by
  obtain ⟨x, y, z⟩ := c
  simp only [Once, slots, pairwise_cons, forall_mem_cons] at h ⊢
  unfold eraseCacheEntry
  split
  · grind
  split
  · grind
  split
  · grind
  · grind

theorem Mirrors.erase (h : Mirrors c f)
    (hf : ∀ x ∈ (c.eraseCacheEntry v).slots, x.valid = true → f' x.vaddr = f x.vaddr) :
    Mirrors (c.eraseCacheEntry v) f' := by
  obtain ⟨honce, hfree⟩ := once_erase h.once v
  refine ⟨fun x hx hvalid => ?_, honce⟩
  rw [hf x hx hvalid]
  exact h.agree x (hfree x hx hvalid).1 hvalid

theorem Mirrors.insert (h : Mirrors c f) (hfree : ∀ x ∈ c.slots, x.valid = true → x.vaddr ≠ w)
    (hw : f w = some e) : Mirrors (c.updateCache w e) f := by
  obtain ⟨hagree, honce⟩ := h
  simp only [Once, slots, pairwise_cons, forall_mem_cons] at hagree honce hfree
  constructor
  · simp_all [slots, updateCache]
  · simp only [Once, slots, updateCache, pairwise_cons, forall_mem_cons]
    grind

end PTableCache

namespace FuncPageTable

/-- `unserialize(cp, section)`: the table is that of the checkpoint. -/
def unserialize (t : FuncPageTable) (entries : List (Nat × TlbEntry)) : FuncPageTable :=
  { t with pTable := entries.foldl (fun f x => Function.update f x.1 (some x.2)) fun _ => none }

/-- A lookup in the table itself. -/
def lookupTable (pageSize : Nat) (t : FuncPageTable) (vaddr : Nat) : Option TlbEntry :=
  t.pTable (pageAlign pageSize vaddr)

/-- **The invariant**: the cache of a table mirrors it. -/
def Current (t : FuncPageTable) : Prop := t.cache.Mirrors t.pTable

variable {pageSize n v w : Nat} {u : TlbEntry} {t t' : FuncPageTable}

theorem Current.lookup (h : t.Current) (vaddr : Nat) : (t.lookup pageSize vaddr).2 = t.lookupTable pageSize vaddr ∧
      (t.lookup pageSize vaddr).1.Current := by
  unfold FuncPageTable.lookup lookupTable
  dsimp only
  cases hfind : t.cache.find (pageAlign pageSize vaddr) with
  | some e =>
    obtain ⟨x, hx, hvalid, haddr, rfl⟩ := PTableCache.mem_of_find hfind
    exact ⟨(haddr ▸ h.agree x hx hvalid).symm, h⟩
  | none =>
    cases hentry : t.pTable (pageAlign pageSize vaddr) with
    | none => exact ⟨rfl, h⟩
    | some e => exact ⟨rfl, PTableCache.Mirrors.insert h (PTableCache.find_eq_none.mp hfind) hentry⟩

theorem Current.mapPages {flags p : Nat} (h : t.Current)
    (ht : t.mapPages pageSize flags n v p = some t') : t'.Current := by
  induction n generalizing t v p with
  | zero => cases ht; exact h
  | succ n ih =>
    rw [FuncPageTable.mapPages] at ht
    split at ht
    · cases ht
    · have hfree := (PTableCache.once_erase h.once v).2
      apply ih _ ht
      exact PTableCache.Mirrors.insert (h.erase fun x hx hvalid =>
          update_of_ne (hfree x hx hvalid).2 ..)
        (fun x hx hvalid => (hfree x hx hvalid).2) (update_self ..)

theorem Current.unmapPages (h : t.Current) (ht : t.unmapPages pageSize n v = some t') : t'.Current := by
  induction n generalizing t v with
  | zero => cases ht; exact h
  | succ n ih =>
    rw [FuncPageTable.unmapPages] at ht
    split at ht
    · apply ih _ ht
      exact h.erase fun x hx hvalid =>
        update_of_ne ((PTableCache.once_erase h.once v).2 x hx hvalid).2 ..
    · cases ht

/-- A page of the new region is only cached if it is a page of the old one, and not a later one. -/
def NewPagesFree (pageSize v w n : Nat) (t : FuncPageTable) : Prop :=
  ∀ i < n, (t.cache.find (pageAt pageSize w i)).isSome = true → ∃ j < i + 1, pageAt pageSize v j = pageAt pageSize w i

instance : Decidable (t.NewPagesFree pageSize v w n) :=
  inferInstanceAs (Decidable (∀ i < n, _ → ∃ j < i + 1, _))

theorem Current.remapPages (h : t.Current) (ht : t.remapPages pageSize u n v w = some t')
    (hw : Distinct pageSize w n) (hfree : t.NewPagesFree pageSize v w n) : t'.Current := by
  induction n generalizing t v w with
  | zero => cases ht; exact h
  | succ n ih =>
    obtain ⟨t₁, entry, e, -, ht, hcache, -, htable⟩ := remapPages_cons ht
    have hgone := (PTableCache.once_erase h.once v).2
    -- a new page that is still cached when the old page has been erased is a later old page
    have hcached : ∀ x ∈ (t.cache.eraseCacheEntry v).slots, x.valid = true → ∀ i < n + 1,
        x.vaddr = pageAt pageSize w i → ∃ j < i, pageAt pageSize v (j + 1) = pageAt pageSize w i := by
      intro x hx hvalid i hi hxi
      obtain ⟨hx', hne⟩ := hgone x hx hvalid
      have hsome : (t.cache.find (pageAt pageSize w i)).isSome = true := by
        by_contra hnone
        exact PTableCache.find_eq_none.mp (not_isSome_iff_eq_none.mp hnone) x hx' hvalid hxi
      obtain ⟨j, hj, hji⟩ := hfree i hi hsome
      cases j with
      | zero => exact absurd (hxi.trans hji.symm) hne
      | succ j => exact ⟨j, by omega, hji⟩
    have hnew : ∀ x ∈ (t.cache.eraseCacheEntry v).slots, x.valid = true → x.vaddr ≠ w := by
      intro x hx hvalid hxw
      obtain ⟨j, hj, -⟩ := hcached x hx hvalid 0 (by omega) hxw
      omega
    have hcurrent : t₁.Current := by
      unfold Current
      rw [hcache]
      refine PTableCache.Mirrors.insert (h.erase fun x hx hvalid => ?_) hnew ?_
      · rw [htable, if_neg (hnew x hx hvalid), if_neg (hgone x hx hvalid).2]
      · rw [htable, if_pos rfl]
    refine ih hcurrent ht hw.tail fun i hi hsome => ?_
    obtain ⟨e', he'⟩ := isSome_iff_exists.mp hsome
    obtain ⟨x, hx, hvalid, hxi, -⟩ := PTableCache.mem_of_find he'
    rw [hcache] at hx
    simp only [PTableCache.slots, PTableCache.updateCache, mem_cons, not_mem_nil, or_false] at hx
    rcases hx with rfl | hx
    · exact absurd hxi (hw.ne (i := 0) (j := i + 1) (by omega) (by omega) (by omega))
    · have hx' : x ∈ (t.cache.eraseCacheEntry v).slots := by
        rcases hx with rfl | rfl <;> simp [PTableCache.slots]
      obtain ⟨j, hj, hji⟩ := hcached x hx' hvalid (i + 1) (by omega) hxi
      exact ⟨j, hj, hji⟩

end FuncPageTable

/-! ## Runs -/

/-- A call on the page table, or the restore of a checkpoint. -/
inductive PageEvent where
  | call (c : PageCall)
  | unserialize (entries : List (Nat × TlbEntry))

namespace FuncPageTable

variable {pageSize : Nat} {u : TlbEntry} {t t' : FuncPageTable}

/-- One event. -/
def event (pageSize : Nat) (u : TlbEntry) (t : FuncPageTable) : PageEvent → Option FuncPageTable
  | .call c => (t.call pageSize u c).map (·.1)
  | .unserialize entries => some (t.unserialize entries)

/-- **When the cache is kept**: the region that `remap` moves to fits into the address space and its
    pages are not cached, and a checkpoint agrees with what is cached. -/
def CacheKept (pageSize : Nat) (t : FuncPageTable) : PageEvent → Prop
  | .call (.remap v size w) => w < 2 ^ 64 ∧ pagesOf pageSize size * pageSize ≤ 2 ^ 64 ∧
      t.NewPagesFree pageSize v w (pagesOf pageSize size)
  | .unserialize entries => ∀ x ∈ t.cache.slots, x.valid = true →
      (t.unserialize entries).pTable x.vaddr = some x.entry
  | _ => True

instance (pageSize : Nat) (t : FuncPageTable) (e : PageEvent) : Decidable (t.CacheKept pageSize e) :=
  match e with
  | .call (.remap ..) => inferInstanceAs (Decidable (_ ∧ _ ∧ _))
  | .unserialize _ => inferInstanceAs (Decidable (∀ x ∈ t.cache.slots, _ → _ = _))
  | .call (.map ..) | .call (.unmap ..) | .call (.isUnmapped ..) | .call (.lookup _) =>
    inferInstanceAs (Decidable True)

theorem Current.event {e : PageEvent} (h : t.Current) (hkept : t.CacheKept pageSize e)
    (ht : t.event pageSize u e = some t') : t'.Current := by
  cases e with
  | unserialize entries =>
    cases ht
    exact ⟨hkept, h.once⟩
  | call c =>
    obtain ⟨⟨t₁, answer⟩, hcall, rfl⟩ := map_eq_some_iff.mp ht
    cases c with
    | map v p size flags =>
      obtain ⟨t₂, hmap, heq⟩ := map_eq_some_iff.mp hcall
      cases heq
      obtain ⟨-, hmap⟩ := ite_none_right_eq_some.mp hmap
      exact h.mapPages hmap
    | remap v size w =>
      obtain ⟨t₂, hremap, heq⟩ := map_eq_some_iff.mp hcall
      cases heq
      obtain ⟨hw, hfits, hfree⟩ := hkept
      obtain ⟨-, hremap⟩ := ite_none_right_eq_some.mp hremap
      refine h.remapPages hremap (fun i hi => distinct_of_fits hw ?_ hfits i hi) hfree
      refine Nat.pos_of_ne_zero fun hzero => ?_
      simp [pagesOf, hzero] at hi
    | unmap v size =>
      obtain ⟨t₂, hunmap, heq⟩ := map_eq_some_iff.mp hcall
      cases heq
      obtain ⟨-, hunmap⟩ := ite_none_right_eq_some.mp hunmap
      exact h.unmapPages hunmap
    | isUnmapped v size =>
      obtain ⟨b, -, heq⟩ := map_eq_some_iff.mp hcall
      cases heq
      exact h
    | lookup v =>
      cases hcall
      exact (h.lookup v).2

/-- **The cache is transparent** as long as it is kept: every lookup returns what the table has. -/
theorem lookup_transparent {es : List PageEvent}
    (hrun : Run (Guarded (stepOf (FuncPageTable.event pageSize u)) (CacheKept pageSize)) (.init u) es t)
    (vaddr : Nat) : (t.lookup pageSize vaddr).2 = t.lookupTable pageSize vaddr := by
  have h0 : (FuncPageTable.init u).Current := by
    constructor <;> simp [FuncPageTable.init, PTableCache.empty, PTableCache.Once, PTableCache.slots]
  exact ((Run.inv (P := Current) (fun _ _ _ h hs => h.event hs.2 hs.1) hrun h0).lookup vaddr).1

/-- Two pages are mapped, the second is moved to a third place, and a checkpoint that has the two as they
    are now is restored. -/
theorem lookup_transparent_moved : ∃ t, Run
    (Guarded (stepOf (FuncPageTable.event 4096 ⟨0, 0, false, false⟩)) (CacheKept 4096)) (.init ⟨0, 0, false, false⟩)
    [.call (.map 0 40960 8192 0), .call (.remap 4096 4096 8192), .call (.unmap 0 4096),
      .unserialize [(8192, ⟨8192, 45056, false, true⟩), (0, ⟨0, 40960, false, true⟩)]] t ∧
    (t.lookup 4096 8200).2 = some ⟨8192, 45056, false, true⟩ := by
  refine run_observe (fun t => t.lookupTable 4096 8200) (some ⟨8192, 45056, false, true⟩) (by decide +kernel)
    fun t ht hobs => ?_
  rw [lookup_transparent ht 8200]
  exact hobs

/-- A page is moved onto one that is mapped and cached, and then unmapped: the lookup finds the
    translation from before the move. -/
theorem lookup_stale_after_remap : ∃ t, exec (FuncPageTable.event 4096 ⟨0, 0, false, false⟩)
    (.init ⟨0, 0, false, false⟩)
    [.call (.map 0 40960 8192 0), .call (.remap 4096 4096 0), .call (.unmap 0 4096)] = some t ∧
    (t.lookup 4096 0).2 = some ⟨0, 40960, false, true⟩ ∧ t.lookupTable 4096 0 = none :=
  exec_observe (fun t => ((t.lookup 4096 0).2, t.lookupTable 4096 0))
    (some ⟨0, 40960, false, true⟩, none) (by decide +kernel) fun _ _ hobs => Prod.mk.inj hobs

end FuncPageTable

end NvpSim.Mem
