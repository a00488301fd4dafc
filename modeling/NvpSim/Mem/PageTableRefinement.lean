/-
  The multi-level page table refines the functional one.

  `Sim` relates a `FuncPageTable` and a `MultiLevelPageTable`: the entry at the end of the path of each page
  holds the page number that the hash map has for it, and the two translation caches hold the same.  Every
  call of the first that goes through is followed by the second with the same answer (`sim_call`) if it is
  `Benign`:

  * no physical page 0 is mapped: the multi-level table takes its entry for an absent one;
  * nothing is remapped: `remap` shifts the page number it read once more (`page_zero_and_remap`);
  * the addresses are `canonical`, that is told apart by their offsets, and the page numbers fit into an
    entry.
-/
import NvpSim.Lib.Run
import NvpSim.Mem.PageTableTree

namespace NvpSim.Mem

open NvpSim.Lib NvpSim.Base List Option

/-! ## The caches -/

/-- The same translation. -/
def CacheElement.Alike (a b : CacheElement) : Prop :=
  a.valid = b.valid ∧ a.vaddr = b.vaddr ∧ a.entry.paddr = b.entry.paddr

/-- The same translations in the same places. -/
structure PTableCache.Alike (c d : PTableCache) : Prop where
  elem0 : c.elem0.Alike d.elem0
  elem1 : c.elem1.Alike d.elem1
  elem2 : c.elem2.Alike d.elem2

namespace PTableCache

variable {c d : PTableCache}

theorem Alike.updateCache (h : c.Alike d) (vaddr : Nat) {e e' : TlbEntry} (he : e.paddr = e'.paddr) :
    (c.updateCache vaddr e).Alike (d.updateCache vaddr e') :=
  ⟨⟨rfl, rfl, he⟩, h.elem0, h.elem1⟩

theorem Alike.eraseCacheEntry (h : c.Alike d) (vaddr : Nat) :
    (c.eraseCacheEntry vaddr).Alike (d.eraseCacheEntry vaddr) := by
  obtain ⟨h0, h1, h2⟩ := h
  unfold PTableCache.eraseCacheEntry
  rw [h0.1, h0.2.1, h1.1, h1.2.1, h2.1, h2.2.1]
  split
  · exact ⟨⟨rfl, h0.2⟩, h1, h2⟩
  split
  · exact ⟨h0, ⟨rfl, h1.2⟩, h2⟩
  split
  · exact ⟨h0, h1, ⟨rfl, h2.2⟩⟩
  · exact ⟨h0, h1, h2⟩

theorem Alike.find (h : c.Alike d) (a : Nat) : (c.find a).map (·.paddr) = (d.find a).map (·.paddr) := by
  obtain ⟨h0, h1, h2⟩ := h
  unfold PTableCache.find
  rw [h0.1, h0.2.1, h1.1, h1.2.1, h2.1, h2.2.1]
  split
  · exact congrArg some h0.2.2
  split
  · exact congrArg some h1.2.2
  split
  · exact congrArg some h2.2.2
  · rfl

end PTableCache

/-! ## Regions -/

/-- The pages of a region. -/
def region (pageSize : Nat) : Nat → Nat → List Nat
  | 0, _ => []
  | n + 1, a => a :: region pageSize n (nextPage pageSize a)

section Refinement

variable {ops : ISAOps} {pnumLimit : Nat} {canonical : Nat → Prop}

theorem nextPage_aligned (law : ops.Lawful pnumLimit canonical) {a : Nat} (ha : a % ops.pageBytes = 0) :
    nextPage ops.pageBytes a % ops.pageBytes = 0 := by
  have hdvd : ops.pageBytes ∣ 2 ^ 64 := Nat.pow_dvd_pow 2 law.pageShift_le
  rw [nextPage, Nat.mod_mod_of_dvd _ hdvd, Nat.add_mod_right, ha]

theorem pageAlign_aligned (pageSize a : Nat) : pageAlign pageSize a % pageSize = 0 := by
  exact Nat.mod_eq_zero_of_dvd (Nat.dvd_sub_mod a)

/-! ## Paths and walks of a virtual page -/

/-- The path to the last table of a page, and the offset in it. -/
def ISAOps.upper (ops : ISAOps) (vaddr : Nat) : List Nat := ((ops.getOffsets vaddr).drop 1).reverse
def ISAOps.low (ops : ISAOps) (vaddr : Nat) : Nat := (ops.getOffsets vaddr).getD 0 0

variable {t : MultiLevelPageTable} {f f' : FuncPageTable} {vaddr table n : Nat} {uninit : TlbEntry}

section

variable (law : ops.Lawful pnumLimit canonical)

include law

theorem offsets_pos (vaddr : Nat) : 0 < (ops.getOffsets vaddr).length := by
  rw [law.offsets_length]
  exact length_pos_of_ne_nil law.layout_ne

theorem path_eq (vaddr : Nat) :
    ops.path vaddr = ops.upper vaddr ++ [ops.low vaddr] := by
  have h := upper_succ (offsets_pos law vaddr)
  rwa [drop_zero] at h

theorem path_inj {v w : Nat} (hv : canonical v)
    (hw : canonical w) (hv' : v % ops.pageBytes = 0) (hw' : w % ops.pageBytes = 0)
    (h : ops.path v = ops.path w) : v = w :=
  law.offsets_inj v w hv hw hv' hw' (reverse_inj.mp h)

/-- The page number the multi-level table has for a virtual page. -/
def MultiLevelPageTable.stored (ops : ISAOps) (t : MultiLevelPageTable) (vaddr : Nat) : Option Nat :=
  Mem.stored ops t.system t.basePtr (ops.path vaddr)

theorem stored_eq (vaddr : Nat) :
    t.stored ops vaddr = (Mem.stored ops t.system t.basePtr (ops.upper vaddr)).bind fun table =>
      ops.links t.system.mem (ops.slot table (ops.low vaddr)) := by
  unfold MultiLevelPageTable.stored
  rw [path_eq law]
  exact follow_snoc _ _ _ _ _

theorem walk_find (vaddr : Nat) : t.walk ops vaddr false =
      .ok ((Mem.stored ops t.system t.basePtr (ops.upper vaddr)).map (ops.slot · (ops.low vaddr)), t) := by
  have hpos := offsets_pos law vaddr
  have hlen := law.offsets_length vaddr
  unfold MultiLevelPageTable.walk
  rw [walkLevels_find t.basePtr (by omega)]
  · rfl
  · rw [drop_eq_nil_of_le (by omega)]
    rfl

theorem walk_allocate (tree : Tree ops t.system t.basePtr) (hroom : Roomy ops pnumLimit t.system)
    (hpage : t.system.pagePtr ≠ 0) (vaddr : Nat) : t.walk ops vaddr true = .error .outOfMemory ∨
      ∃ table sys', t.walk ops vaddr true = .ok (some (ops.slot table (ops.low vaddr)), { t with system := sys' }) ∧
        Grown ops pnumLimit t.basePtr t.system sys' ∧
        Mem.stored ops sys' t.basePtr (ops.upper vaddr) = some table := by
  have hpos := offsets_pos law vaddr
  have hlen := law.offsets_length vaddr
  have hbase : Mem.stored ops t.system t.basePtr ((ops.getOffsets vaddr).drop
      (ops.pageTableLayout.length - 1 + 1)).reverse = some t.basePtr := by
    rw [drop_eq_nil_of_le (by omega)]
    rfl
  unfold MultiLevelPageTable.walk
  rcases walkLevels_allocate law hlen (law.offsets_fit vaddr) (by omega) tree hroom hpage hbase with
    h | ⟨table, sys', h, grown, hfound⟩
  · exact Or.inl (by rw [h])
  · exact Or.inr ⟨table, sys', by rw [h]; rfl, grown, hfound⟩

/-! ## The simulation -/

/-- **The simulation relation.** -/
structure Sim (ops : ISAOps) (pnumLimit : Nat) (canonical : Nat → Prop) (f : FuncPageTable)
    (t : MultiLevelPageTable) : Prop where
  tree : Tree ops t.system t.basePtr
  roomy : Roomy ops pnumLimit t.system
  pagePtr_ne : t.system.pagePtr ≠ 0
  agree : ∀ v, canonical v → v % ops.pageBytes = 0 →
    (f.pTable v).map (·.paddr) = (t.stored ops v).map (· * ops.pageBytes)
  cache : f.cache.Alike t.cache

omit law in
theorem Sim.isSome (h : Sim ops pnumLimit canonical f t) (hv : canonical vaddr)
    (hv' : vaddr % ops.pageBytes = 0) : (f.pTable vaddr).isSome = (t.stored ops vaddr).isSome := by
  have hagree := congrArg Option.isSome (h.agree vaddr hv hv')
  rwa [isSome_map, isSome_map] at hagree

theorem Sim.grown (h : Sim ops pnumLimit canonical f t)
    {sys' : SystemPages} (grown : Grown ops pnumLimit t.basePtr t.system sys') :
    Sim ops pnumLimit canonical f { t with system := sys' } where
  tree := grown.tree
  roomy := grown.roomy
  pagePtr_ne := grown.pagePtr_ne
  agree := fun v hv hv' => by
    rw [h.agree v hv hv']
    refine congrArg _ (grown.same _ (law.offsets_fit v) ?_).symm
    rw [length_reverse, law.offsets_length]
  cache := h.cache

/-- **Writing the entry of a page** is writing the hash map. -/
theorem Sim.write (h : Sim ops pnumLimit canonical f t) (hv : canonical vaddr) (hv' : vaddr % ops.pageBytes = 0)
    (htable : Mem.stored ops t.system t.basePtr (ops.upper vaddr) = some table) {pte : BitVec 64}
    {entry : Option TlbEntry} (hentry : entry.map (·.paddr) =
      (if ops.getPnum pte = 0 then none else some (ops.getPnum pte)).map (· * ops.pageBytes))
    {cache cache' : PTableCache} (hcache : cache.Alike cache') :
    Sim ops pnumLimit canonical ⟨Function.update f.pTable vaddr entry, cache⟩
      { t.write (ops.slot table (ops.low vaddr)) pte with cache := cache' } := by
  have hvalid : ops.Valid (ops.upper vaddr ++ [ops.low vaddr]) := by
    rw [← path_eq law]
    exact law.offsets_fit vaddr
  have hlen : (ops.upper vaddr).length + 1 = ops.pageTableLayout.length := by
    have hpos := offsets_pos law vaddr
    have hoff := law.offsets_length vaddr
    rw [ISAOps.upper, length_reverse, length_drop]
    omega
  obtain ⟨tree, hself, hother⟩ := Tree.store
    (t.write (ops.slot table (ops.low vaddr)) pte).system law h.tree hvalid hlen htable rfl rfl
  refine ⟨tree, ⟨h.roomy.m5ops, h.roomy.pnum⟩, h.pagePtr_ne, fun w hw hw' => ?_, hcache⟩
  dsimp only
  by_cases heq : w = vaddr
  · subst heq
    rw [Function.update_self, hentry]
    unfold MultiLevelPageTable.stored
    rw [path_eq law]
    exact congrArg _ hself.symm
  · rw [Function.update_of_ne heq, h.agree w hw hw']
    refine congrArg _ (hother (ops.path w) (law.offsets_fit w) fun hpath => heq ?_).symm
    exact path_inj law hw hv hw' hv' (hpath.trans (path_eq law vaddr).symm)

theorem links_of_stored (htable : Mem.stored ops t.system t.basePtr (ops.upper vaddr) = some table) :
    t.stored ops vaddr =
      if ops.getPnum (t.read (ops.slot table (ops.low vaddr))) = 0 then none
      else some (ops.getPnum (t.read (ops.slot table (ops.low vaddr)))) := by
  rw [stored_eq law, htable]
  rfl

theorem Sim.mapPage (h : Sim ops pnumLimit canonical f t) (hv : canonical vaddr)
    (hv' : vaddr % ops.pageBytes = 0) {paddr : Nat} (hp : paddr % ops.pageBytes = 0)
    (hzero : paddr / ops.pageBytes ≠ 0) (hlimit : paddr / ops.pageBytes < pnumLimit)
    (htable : Mem.stored ops t.system t.basePtr (ops.upper vaddr) = some table) (pte : BitVec 64)
    (fields : Nat) (unc ro : Bool) : Sim ops pnumLimit canonical
      ⟨Function.update f.pTable vaddr (some (TlbEntry.make vaddr paddr unc ro)),
        (f.cache.eraseCacheEntry vaddr).updateCache vaddr (TlbEntry.make vaddr paddr unc ro)⟩
      { t.write (ops.slot table (ops.low vaddr))
          (ops.setPTEFields (ops.setPnum pte (paddr / ops.pageBytes)) fields) with
        cache := (t.cache.eraseCacheEntry vaddr).updateCache vaddr (TlbEntry.make vaddr paddr unc ro) } := by
  refine h.write law hv hv' htable ?_ ((h.cache.eraseCacheEntry vaddr).updateCache vaddr rfl)
  rw [law.getPnum_setPTEFields, law.getPnum_setPnum _ _ hlimit, if_neg hzero]
  refine congrArg some ?_
  show paddr = paddr / ops.pageBytes * ops.pageBytes
  rw [Nat.div_mul_cancel (Nat.dvd_of_mod_eq_zero hp)]

/-- **`map`**, page by page. -/
theorem sim_mapPages (flags : Nat) {paddr : Nat} (h : Sim ops pnumLimit canonical f t)
    (hv' : vaddr % ops.pageBytes = 0) (hp' : paddr % ops.pageBytes = 0)
    (hv : ∀ a ∈ region ops.pageBytes n vaddr, canonical a) (hp : ∀ a ∈ region ops.pageBytes n paddr,
      a / ops.pageBytes ≠ 0 ∧ a / ops.pageBytes < pnumLimit)
    (hf : f.mapPages ops.pageBytes flags n vaddr paddr = some f') :
    t.mapPages ops flags n vaddr paddr = .error .outOfMemory ∨
      ∃ t', t.mapPages ops flags n vaddr paddr = .ok t' ∧ Sim ops pnumLimit canonical f' t' := by
  induction n generalizing f t vaddr paddr with
  | zero =>
    cases hf
    exact Or.inr ⟨t, rfl, h⟩
  | succ n ih =>
    have hcan := hv vaddr mem_cons_self
    obtain ⟨hzero, hlimit⟩ := hp paddr mem_cons_self
    unfold FuncPageTable.mapPages at hf
    unfold MultiLevelPageTable.mapPages
    rcases walk_allocate law h.tree h.roomy h.pagePtr_ne vaddr with hw | ⟨table, sys', hw, grown, hfound⟩
    · exact Or.inl (by rw [hw])
    · rw [hw]
      dsimp only
      have hsim := h.grown law grown
      split at hf
      · cases hf
      rename_i hfree
      have hfree' : ¬ ((!flagClobber flags && ops.getPnum (MultiLevelPageTable.read
          { t with system := sys' } (ops.slot table (ops.low vaddr))) != 0) = true) := by
        intro hbad
        rw [Bool.and_eq_true] at hbad
        refine hfree ?_
        rw [Bool.and_eq_true, hsim.isSome hcan hv', links_of_stored (t := { t with system := sys' }) law hfound]
        refine ⟨hbad.1, ?_⟩
        rw [if_neg (by simpa using hbad.2)]
        rfl
      rw [if_neg hfree']
      exact ih (hsim.mapPage law hcan hv' hp' hzero hlimit hfound _ _ _ _)
        (nextPage_aligned law hv') (nextPage_aligned law hp')
        (forall_mem_cons.mp hv).2 (forall_mem_cons.mp hp).2 hf

section

variable (h : Sim ops pnumLimit canonical f t) (hv' : vaddr % ops.pageBytes = 0)
  (hv : ∀ a ∈ region ops.pageBytes n vaddr, canonical a)

include h hv' hv

/-- **`unmap`**, page by page. -/
theorem sim_unmapPages (hf : f.unmapPages ops.pageBytes n vaddr = some f') :
    ∃ t', t.unmapPages ops n vaddr = .ok t' ∧ Sim ops pnumLimit canonical f' t' := by
  induction n generalizing f t vaddr with
  | zero =>
    cases hf
    exact ⟨t, rfl, h⟩
  | succ n ih =>
    have hcan := hv vaddr mem_cons_self
    unfold FuncPageTable.unmapPages at hf
    unfold MultiLevelPageTable.unmapPages
    split at hf
    · rename_i hsome
      rw [h.isSome hcan hv'] at hsome
      rw [walk_find law]
      cases htable : Mem.stored ops t.system t.basePtr (ops.upper vaddr) with
      | none =>
        rw [stored_eq law, htable] at hsome
        cases hsome
      | some table =>
        have hne : ops.getPnum (t.read (ops.slot table (ops.low vaddr))) ≠ 0 := fun hzero => by
          rw [links_of_stored law htable, if_pos hzero] at hsome
          cases hsome
        dsimp only [map_some]
        rw [if_neg hne]
        refine ih (h.write law hcan hv' htable ?_ (h.cache.eraseCacheEntry vaddr))
          (nextPage_aligned law hv') (forall_mem_cons.mp hv).2 hf
        rw [law.getPnum_setPnum _ _ law.pnumLimit_pos]
        rfl
    · cases hf

/-- **`isUnmapped`**, page by page. -/
theorem sim_pagesUnmapped : t.pagesUnmapped ops n vaddr = .ok (f.pagesUnmapped ops.pageBytes n vaddr) := by
  induction n generalizing vaddr with
  | zero => rfl
  | succ n ih =>
    have hsome := h.isSome (hv vaddr mem_cons_self) hv'
    have hnext := ih (nextPage_aligned law hv') (forall_mem_cons.mp hv).2
    unfold FuncPageTable.pagesUnmapped MultiLevelPageTable.pagesUnmapped
    rw [walk_find law, hsome]
    cases htable : Mem.stored ops t.system t.basePtr (ops.upper vaddr) with
    | none =>
      rw [stored_eq law, htable]
      exact hnext
    | some table =>
      rw [links_of_stored law htable]
      dsimp only [map_some]
      by_cases hzero : ops.getPnum (t.read (ops.slot table (ops.low vaddr))) = 0
      · rw [if_neg (not_not.mpr hzero), if_pos hzero]
        exact hnext
      · rw [if_pos hzero, if_neg hzero]
        rfl

end

/-- **`lookup`**. -/
theorem sim_lookup (h : Sim ops pnumLimit canonical f t) (hv : canonical (pageAlign ops.pageBytes vaddr)) :
    ∃ t' entry, t.lookup ops vaddr = .ok (t', entry) ∧
      entry.map (·.paddr) = (f.lookup ops.pageBytes vaddr).2.map (·.paddr) ∧
      Sim ops pnumLimit canonical (f.lookup ops.pageBytes vaddr).1 t' := by
  have hfind := h.cache.find (pageAlign ops.pageBytes vaddr)
  have hagree := h.agree _ hv (pageAlign_aligned _ _)
  unfold FuncPageTable.lookup MultiLevelPageTable.lookup
  dsimp only
  cases hf : f.cache.find (pageAlign ops.pageBytes vaddr) with
  | some e =>
    rw [hf] at hfind
    obtain ⟨e', he', hpaddr⟩ := map_eq_some_iff.mp hfind.symm
    rw [he']
    exact ⟨t, some e', rfl, congrArg some hpaddr, h⟩
  | none =>
    rw [hf] at hfind
    rw [map_eq_none_iff.mp hfind.symm, walk_find law]
    cases htable : Mem.stored ops t.system t.basePtr (ops.upper (pageAlign ops.pageBytes vaddr)) with
    | none =>
      rw [stored_eq law, htable] at hagree
      rw [map_eq_none_iff.mp hagree]
      exact ⟨t, none, rfl, rfl, h⟩
    | some table =>
      rw [links_of_stored law htable] at hagree
      dsimp only [map_some]
      by_cases hzero : ops.getPnum (t.read (ops.slot table (ops.low (pageAlign ops.pageBytes vaddr)))) = 0
      · rw [if_pos hzero] at hagree
        rw [if_pos hzero, map_eq_none_iff.mp hagree]
        exact ⟨t, none, rfl, rfl, h⟩
      · rw [if_neg hzero] at hagree
        obtain ⟨e, he, hpaddr⟩ := map_eq_some_iff.mp hagree
        rw [if_neg hzero, he]
        exact ⟨_, _, rfl, congrArg some hpaddr.symm,
          { h with cache := h.cache.updateCache _ hpaddr }⟩

/-! ## Runs -/

theorem sim_initState {sys : SystemPages} {contextPtr : Nat} (hroom : Roomy ops pnumLimit sys)
    (hinit : MultiLevelPageTable.initState ops uninit sys contextPtr = .ok t) :
    Sim ops pnumLimit canonical (.init uninit) t := by
  have hpos := length_pos_of_ne_nil law.layout_ne
  unfold MultiLevelPageTable.initState at hinit
  dsimp only at hinit
  obtain ⟨base, hbase⟩ : ∃ base, base = if contextPtr = 0 then contextPtr + 1 else contextPtr :=
    ⟨_, rfl⟩
  obtain ⟨top, htop⟩ : ∃ top, top = ops.pageTableLayout.getD (ops.pageTableLayout.length - 1) 0 :=
    ⟨_, rfl⟩
  rw [← hbase, ← htop] at hinit
  have hbase_pos : 0 < base := by split at hbase <;> omega
  have hmem : top ∈ ops.pageTableLayout := by
    rw [htop, getD_eq_getElem?_getD, getElem?_eq_getElem (Nat.sub_lt hpos Nat.one_pos)]
    exact getElem_mem _
  have hsize : ∀ o, ops.Valid [o] → o < 2 ^ top := fun o ho => by
    have hfits : Fits ops.pageTableLayout.reverse ([] ++ [o]) := ho
    have hlt : o < 2 ^ ops.pageTableLayout.reverse.getD 0 0 := (fits_snoc.mp hfits).2.2
    rwa [getD_eq_getElem?_getD, getElem?_reverse hpos, ← getD_eq_getElem?_getD, Nat.sub_zero, ← htop] at hlt
  rcases allocTable_spec { sys with pagePtr := base } ⟨hroom.m5ops, hroom.pnum⟩
    (law.layout_page top hmem) with halloc | ⟨ptr, halloc, hptr, -⟩
  · rw [halloc] at hinit
    cases hinit
  rw [halloc] at hinit
  cases hinit
  obtain ⟨tree, hnone⟩ := Tree.top ⟨_, ptr, sys.totalSize⟩ law hsize sys.mem rfl hptr
  refine ⟨tree, ⟨hroom.m5ops, hroom.pnum⟩, fun hzero => ?_, fun v _ _ => ?_,
    ⟨⟨rfl, rfl, rfl⟩, ⟨rfl, rfl, rfl⟩, ⟨rfl, rfl, rfl⟩⟩⟩
  · have hzero' : ptr = 0 := hzero
    have hpages : 0 < base * ops.pageBytes := Nat.mul_pos hbase_pos pageBytes_pos
    rw [hzero'] at hptr
    dsimp only at hptr
    omega
  · have hne : ops.path v ≠ [] := fun hnil => by
      have hlen := law.offsets_length v
      rw [reverse_eq_nil_iff.mp hnil] at hlen
      exact absurd hlen.symm (Nat.ne_of_gt hpos)
    exact (congrArg (Option.map _) (hnone _ (law.offsets_fit v) hne)).symm

end

/-- **The calls that the two page tables answer alike.** -/
def PageCall.Benign (ops : ISAOps) (pnumLimit : Nat) (canonical : Nat → Prop) : PageCall → Prop
  | .map vaddr paddr size _ =>
    (∀ a ∈ region ops.pageBytes (pagesOf ops.pageBytes size) vaddr, canonical a) ∧
    paddr % ops.pageBytes = 0 ∧
    ∀ a ∈ region ops.pageBytes (pagesOf ops.pageBytes size) paddr,
      a / ops.pageBytes ≠ 0 ∧ a / ops.pageBytes < pnumLimit
  | .remap _ size _ => pagesOf ops.pageBytes size = 0
  | .unmap vaddr size | .isUnmapped vaddr size =>
    ∀ a ∈ region ops.pageBytes (pagesOf ops.pageBytes size) vaddr, canonical a
  | .lookup vaddr => canonical (pageAlign ops.pageBytes vaddr)

instance (ops : ISAOps) (pnumLimit : Nat) (canonical : Nat → Prop) [DecidablePred canonical] :
    (c : PageCall) → Decidable (c.Benign ops pnumLimit canonical)
  | .map _ _ _ _ => inferInstanceAs (Decidable (_ ∧ _ ∧ _))
  | .remap _ _ _ => inferInstanceAs (Decidable (_ = _))
  | .unmap _ _ | .isUnmapped _ _ => inferInstanceAs (Decidable (∀ a ∈ _, _))
  | .lookup _ => inferInstanceAs (Decidable (canonical _))

/-- **A call that the functional table answers** is answered alike by the multi-level one, unless that
    runs out of memory. -/
theorem sim_call (law : ops.Lawful pnumLimit canonical) (h : Sim ops pnumLimit canonical f t)
    {c : PageCall} {answer : PageAnswer} (hc : c.Benign ops pnumLimit canonical)
    (hf : f.call ops.pageBytes uninit c = some (f', answer)) : t.call ops c = .error .outOfMemory ∨
      ∃ t', t.call ops c = .ok (t', answer) ∧ Sim ops pnumLimit canonical f' t' := by
  cases c with
  | map vaddr paddr size flags =>
    obtain ⟨hv, hp', hp⟩ := hc
    obtain ⟨f₁, hf₁, heq⟩ := map_eq_some_iff.mp hf
    cases heq
    unfold FuncPageTable.map at hf₁
    dsimp only [MultiLevelPageTable.call, MultiLevelPageTable.map]
    split at hf₁
    · rename_i hv'
      rw [if_pos hv']
      rcases sim_mapPages law flags h hv' hp' hv hp hf₁ with hoom | ⟨t', ht', hsim⟩
      · exact Or.inl (by rw [hoom]; rfl)
      · exact Or.inr ⟨t', by rw [ht']; rfl, hsim⟩
    · cases hf₁
  | remap vaddr size newVaddr =>
    obtain ⟨f₁, hf₁, heq⟩ := map_eq_some_iff.mp hf
    cases heq
    have hnone : pagesOf ops.pageBytes size = 0 := hc
    unfold FuncPageTable.remap at hf₁
    dsimp only [MultiLevelPageTable.call, MultiLevelPageTable.remap]
    rw [hnone] at hf₁ ⊢
    split at hf₁
    · rename_i haligned
      cases hf₁
      exact Or.inr ⟨t, by rw [if_pos haligned]; rfl, h⟩
    · cases hf₁
  | unmap vaddr size =>
    obtain ⟨f₁, hf₁, heq⟩ := map_eq_some_iff.mp hf
    cases heq
    unfold FuncPageTable.unmap at hf₁
    dsimp only [MultiLevelPageTable.call, MultiLevelPageTable.unmap]
    split at hf₁
    · rename_i hv'
      obtain ⟨t', ht', hsim⟩ := sim_unmapPages law h hv' hc hf₁
      exact Or.inr ⟨t', by rw [if_pos hv', ht']; rfl, hsim⟩
    · cases hf₁
  | isUnmapped vaddr size =>
    obtain ⟨b, hb, heq⟩ := map_eq_some_iff.mp hf
    cases heq
    unfold FuncPageTable.isUnmapped at hb
    dsimp only [MultiLevelPageTable.call, MultiLevelPageTable.isUnmapped]
    split at hb
    · rename_i hv'
      cases hb
      exact Or.inr ⟨t, by rw [if_pos hv', sim_pagesUnmapped law h hv' hc]; rfl, h⟩
    · cases hb
  | lookup vaddr =>
    obtain ⟨t', entry, ht', hentry, hsim⟩ := sim_lookup law h hc
    have heq := Option.some.inj hf
    refine Or.inr ⟨t', ?_, ?_⟩
    · dsimp only [MultiLevelPageTable.call]
      rw [ht']
      have hans : answer = .page (entry.map (·.paddr)) := by rw [hentry]; exact (congrArg Prod.snd heq).symm
      rw [hans]
      rfl
    · have hfst : (f.lookup ops.pageBytes vaddr).1 = f' := congrArg Prod.fst heq
      exact hfst ▸ hsim

/-- The two page tables side by side: a call goes through if both take it. -/
def bothCall (ops : ISAOps) (uninit : TlbEntry) (s : FuncPageTable × MultiLevelPageTable)
    (c : PageCall) : Option (FuncPageTable × MultiLevelPageTable) :=
  match s.1.call ops.pageBytes uninit c, s.2.call ops c with
  | some (f, _), .ok (t, _) => some (f, t)
  | _, _ => none

theorem sim_bothCall (law : ops.Lawful pnumLimit canonical) {c : PageCall}
    {s s' : FuncPageTable × MultiLevelPageTable} (h : Sim ops pnumLimit canonical s.1 s.2)
    (hc : c.Benign ops pnumLimit canonical) (hs : bothCall ops uninit s c = some s') :
    Sim ops pnumLimit canonical s'.1 s'.2 := by
  unfold bothCall at hs
  split at hs
  · rename_i hf ht
    cases hs
    rcases sim_call law h hc hf with hoom | ⟨t₁, ht₁, hsim⟩
    · rw [hoom] at ht
      cases ht
    · rw [ht₁] at ht
      cases ht
      exact hsim
  · cases hs

/-- **The multi-level page table refines the functional one** in every run of benign calls: the same
    pages are mapped to the same physical addresses, and every further call that the functional table
    takes gets the same answer from both. -/
theorem multi_level_refines_func (law : ops.Lawful pnumLimit canonical) {sys : SystemPages}
    {uninit : TlbEntry} {contextPtr : Nat} {t₀ : MultiLevelPageTable} {calls : List PageCall}
    (hroom : Roomy ops pnumLimit sys) (hinit : MultiLevelPageTable.initState ops uninit sys contextPtr = .ok t₀)
    (hrun : Run (Guarded (stepOf (bothCall ops uninit)) fun _ c => c.Benign ops pnumLimit canonical)
      (.init uninit, t₀) calls (f, t)) : (∀ v, canonical v → v % ops.pageBytes = 0 →
      (f.pTable v).map (·.paddr) = (t.stored ops v).map (· * ops.pageBytes)) ∧
    ∀ c, c.Benign ops pnumLimit canonical → ∀ f' answer, f.call ops.pageBytes uninit c = some (f', answer) →
        t.call ops c = .error .outOfMemory ∨ ∃ t', t.call ops c = .ok (t', answer) := by
  have hsim : Sim ops pnumLimit canonical f t :=
    hrun.inv (P := fun s => Sim ops pnumLimit canonical s.1 s.2)
      (fun _ _ _ h hs => sim_bothCall law h hs.2 hs.1) (sim_initState law hroom hinit)
  refine ⟨hsim.agree, fun c hc f' answer hf => ?_⟩
  exact (sim_call law hsim hc hf).imp_right fun ⟨t', ht', _⟩ => ⟨t', ht'⟩

end Refinement

/-! ## x86 -/

namespace X86

open Bitfield

/-- The addresses of x86: bits 63 to 47 are all equal. -/
def Canonical (a : Nat) : Prop := a < 2 ^ 47 ∨ (2 ^ 64 - 2 ^ 47 ≤ a ∧ a < 2 ^ 64)

instance (a : Nat) : Decidable (Canonical a) := inferInstanceAs (Decidable (_ ∨ _))

/-- The page number of an entry has 40 bits. -/
def pnumLimit : Nat := 2 ^ 40

theorem bits_setPTEFields (pte : BitVec 64) (flags : Nat) : bits (setPTEFields pte flags) 51 12 = bits pte 51 12 := by
  unfold setPTEFields
  rw [bits_insertBits_of_disjoint, bits_insertBits_of_disjoint, bits_insertBits_of_disjoint,
    bits_insertBits_of_disjoint] <;> decide

theorem getOffsets_eq {a : Nat} (ha : a < 2 ^ 64) : getOffsets a =
    [a / 2 ^ 12 % 2 ^ 9, a / 2 ^ 21 % 2 ^ 9, a / 2 ^ 30 % 2 ^ 9, a / 2 ^ 39 % 2 ^ 9] := by
  unfold getOffsets
  dsimp only
  rw [toNat_bits _ (by decide), toNat_bits _ (by decide), toNat_bits _ (by decide),
    toNat_bits _ (by decide), BitVec.toNat_ofNat, Nat.mod_eq_of_lt ha]

theorem getOffsets_inj {v w : Nat} (hv : Canonical v) (hw : Canonical w) (hv' : v % 2 ^ 12 = 0)
    (hw' : w % 2 ^ 12 = 0) (h : getOffsets v = getOffsets w) : v = w := by
  have hlt : ∀ {a : Nat}, Canonical a → a < 2 ^ 64 := fun ha => by unfold Canonical at ha; omega
  rw [getOffsets_eq (hlt hv), getOffsets_eq (hlt hw)] at h
  simp only [List.cons.injEq, and_true] at h
  unfold Canonical at hv hw
  omega

theorem pageTableOps_lawful : pageTableOps.Lawful pnumLimit Canonical where
  getPnum_zero := by decide
  getPnum_setPnum := fun pte pnum hlt => by
    show (bits (insertBits pte 51 12 (BitVec.ofNat 64 pnum)) 51 12).toNat = pnum
    unfold pnumLimit at hlt
    rw [bits_insertBits_self _ _ (by decide) (by decide), toNat_and_mask _ (by decide),
      BitVec.toNat_ofNat, Nat.mod_eq_of_lt (Nat.lt_trans hlt (by decide)), Nat.mod_eq_of_lt hlt]
  getPnum_setPTEFields := fun pte flags => congrArg BitVec.toNat (bits_setPTEFields pte flags)
  layout_ne := by decide
  layout_page := by decide
  pageShift_pte := by decide
  pageShift_le := by decide
  pnumLimit_pos := by decide
  offsets_length := fun _ => rfl
  offsets_fit := fun vaddr => by
    have hbits : ∀ first last, first < 64 → first - last + 1 = 9 →
        (bits (BitVec.ofNat 64 vaddr) first last).toNat < 2 ^ 9 := fun first last hfirst hwidth => by
      rw [toNat_bits _ hfirst, hwidth]
      exact Nat.mod_lt _ (Nat.two_pow_pos 9)
    exact ⟨hbits 47 39 (by decide) (by decide), hbits 38 30 (by decide) (by decide),
      hbits 29 21 (by decide) (by decide), hbits 20 12 (by decide) (by decide), trivial⟩
  offsets_inj := fun _ _ hv hw hv' hw' h => getOffsets_inj hv hw hv' hw' h

/-- 512 MiB of memory that is not zero. -/
def someSystem : SystemPages := ⟨fun _ => 0xff, 0, 2 ^ 29⟩

def someEntry : TlbEntry := ⟨0, 0, false, false⟩

/-- A run that maps two pages, maps one of them anew and unmaps the other: afterwards the multi-level
    table has the one page where the functional table has it. -/
theorem multi_level_refines_func_x86 : ∃ f : FuncPageTable, ∃ t : MultiLevelPageTable,
    (f.pTable 0x1000).map (·.paddr) = some 0x9000 ∧
    (t.stored pageTableOps 0x1000).map (· * pageTableOps.pageBytes) = some 0x9000 ∧
    (t.call pageTableOps (.lookup 0x2008) = .error .outOfMemory ∨
      ∃ t', t.call pageTableOps (.lookup 0x2008) = .ok (t', .page none)) := by
  obtain ⟨t₀, hinit, hrun⟩ : ∃ t₀, MultiLevelPageTable.initState pageTableOps someEntry someSystem basePtr = .ok t₀ ∧
      (exec (guardFn (bothCall pageTableOps someEntry)
        fun _ c => c.Benign pageTableOps pnumLimit Canonical) (.init someEntry, t₀)
        [.map 0x1000 0x5000 8192 0, .map 0x1000 0x9000 4096 1, .unmap 0x2000 4096]).map
        (fun s => ((s.1.pTable 0x1000).map (·.paddr),
          (s.1.call pageTableOps.pageBytes someEntry (.lookup 0x2008)).map Prod.snd)) =
        some (some 0x9000, some (.page none)) := ⟨_, rfl, by decide +kernel⟩
  obtain ⟨⟨f, t⟩, hs, hobs⟩ := map_eq_some_iff.mp hrun
  simp only [Prod.mk.injEq] at hobs
  obtain ⟨⟨f', answer⟩, hf, rfl⟩ := map_eq_some_iff.mp hobs.2
  have hroom : Roomy pageTableOps pnumLimit someSystem := ⟨by decide, by decide⟩
  obtain ⟨hagree, hanswer⟩ :=
    multi_level_refines_func pageTableOps_lawful hroom hinit (exec_guardFn_iff.mp hs)
  refine ⟨f, t, hobs.1, ?_, hanswer (.lookup 0x2008) (by decide) f' _ hf⟩
  rw [← hagree 0x1000 (by decide) (by decide)]
  exact hobs.1

/-- The answers of the two tables to the last of some calls, if both went through. -/
def lastAnswers (calls : List PageCall) (c : PageCall) : Option (PageAnswer × PageAnswer) :=
  match MultiLevelPageTable.initState pageTableOps someEntry someSystem basePtr with
  | .error _ => none
  | .ok t₀ =>
    (exec (bothCall pageTableOps someEntry) (.init someEntry, t₀) calls).bind fun s =>
      match s.1.call pageTableOps.pageBytes someEntry c, s.2.call pageTableOps c with
      | some (_, a), .ok (_, b) => some (a, b)
      | _, _ => none

/-- **Physical page 0, and a remapped page.**  A page mapped to physical page 0 is not reported as mapped
    by the multi-level table; and a page that was at `0x5000` is found at address 5 after it was
    remapped, which is its page NUMBER, and once that translation has left the cache, at no address at
    all. -/
theorem page_zero_and_remap : lastAnswers [.map 0x1000 0 4096 0] (.isUnmapped 0x1000 4096) =
      some (.unmapped false, .unmapped true) ∧
    lastAnswers [.map 0x1000 0x5000 4096 0, .remap 0x1000 4096 0x2000] (.lookup 0x2000) =
      some (.page (some 0x5000), .page (some 5)) ∧
    lastAnswers [.map 0x1000 0x5000 4096 0, .remap 0x1000 4096 0x2000, .map 0x3000 0x6000 12288 0]
      (.lookup 0x2000) = some (.page (some 0x5000), .page none) := by
  decide +kernel

end X86

end NvpSim.Mem
