/-
  For which sizes is Ruby's `Set` a set?

  Up to 31 elements there is at most one word, an element is its own bit, and `broadcast` trims that word to the
  right length: the word holds the set (`Rep`), every operation keeps it, and every question is answered as for
  the set.
-/
import NvpSim.Lib.Run
import NvpSim.Ruby.Set

namespace NvpSim.Ruby

open NvpSim.Lib List Option Function

/-- A set answers every question about itself as the subset `A` of `{0, …, n - 1}` does. -/
structure Agrees (n : Nat) (s : RubySet) (A : Finset Nat) : Prop where
  isElement : ∀ x < n, s.isElement x = some (decide (x ∈ A))
  count : s.count = A.card
  isEmpty : s.isEmpty = decide (A = ∅)
  isBroadcast : s.isBroadcast = some (decide (A = Finset.range n))
  smallestElement : ∀ m, s.smallestElement = some m ↔ m ∈ A ∧ ∀ x ∈ A, m ≤ x

/-- Two sets answer every question about each other as the subsets `A` and `B` do. -/
structure AgreeTogether (s t : RubySet) (A B : Finset Nat) : Prop where
  isEqual : s.isEqual t = some (decide (A = B))
  isSuperset : s.isSuperset t = some (decide (B ⊆ A))
  intersectionIsEmpty : s.intersectionIsEmpty t = some (decide (Disjoint A B))

/-- For sets of size `n`: no sequence of operations on elements below `n` fails, and afterwards all sets
    agree with what the sequence means. -/
def Faithful (n : Nat) : Prop :=
  ∀ ops : List SetOp, (∀ op ∈ ops, op.Within n) → ∃ regs, exec SetOp.run (fun _ => .ofSize n) ops = some regs ∧
      (∀ i, Agrees n (regs i) (ops.foldl (SetOp.mean n) (fun _ => ∅) i)) ∧
      ∀ i j, AgreeTogether (regs i) (regs j) (ops.foldl (SetOp.mean n) (fun _ => ∅) i)
        (ops.foldl (SetOp.mean n) (fun _ => ∅) j)

/-! ## One word is enough -/

section Small

variable {n x : Nat} {s t : RubySet} {A B : Finset Nat} {w : BitVec 64}

/-- The first 32 elements are in the first word. -/
theorem wordOf_small (hx : x < 32) : RubySet.wordOf x = 0 := by
  show x >>> 5 = 0
  rw [Nat.shiftRight_eq_div_pow]
  omega

/-- In the first word the element is the number of the bit. -/
theorem bitOf_small (hx : x < 32) : RubySet.bitOf x = BitVec.twoPow 64 x := by
  have hmask : x &&& indexMask = x := by
    show x &&& (2 ^ 5 - 1) = x
    rw [Nat.and_two_pow_sub_one_eq_mod]
    omega
  rw [RubySet.bitOf, hmask, BitVec.twoPow_eq]

/-- The words of a small set hold its elements. -/
structure Rep (n : Nat) (s : RubySet) (A : Finset Nat) : Prop where
  size : s.nSize = n
  below : A ⊆ Finset.range n
  words : ∀ w ∈ s.array, Holds w A

/-- **A set of at most 32 elements**: none at all, or one word. -/
theorem Rep.cases (h : Rep n s A) (hn : n ≤ 32) :
    (n = 0 ∧ s.array = [] ∧ A = ∅) ∨ (0 < n ∧ ∃ w, s.array = [w] ∧ Holds w A) := by
  have hlen := s.length_array
  rw [h.size] at hlen
  rcases Nat.eq_zero_or_pos n with hzero | hpos
  · left
    subst hzero
    refine ⟨rfl, length_eq_zero_iff.mp hlen, ?_⟩
    exact Finset.subset_empty.mp h.below
  · right
    have hone : s.array.length = 1 := by
      rw [hlen]
      show (n + 65 - 1) / 65 = 1
      omega
    obtain ⟨w, hw⟩ := length_eq_one_iff.mp hone
    refine ⟨hpos, w, hw, h.words w ?_⟩
    rw [hw]
    exact mem_singleton_self w

/-- A new set is empty. -/
theorem rep_ofSize (n : Nat) : Rep n (.ofSize n) ∅ where
  size := rfl
  below := Finset.empty_subset _
  words := by
    intro w hw
    rw [eq_of_mem_replicate hw]
    exact Holds.zero

section

variable (h : Rep n s A) (hn : n ≤ 32) (hx : x < n)

include h hn hx

/-- **One word is changed** in an array that has it. -/
theorem Rep.setWord {f : BitVec 64 → BitVec 64}
    (hf : ∀ w, Holds w A → Holds (f w) B) (hB : B ⊆ Finset.range n) :
    ∃ s', s.setWord (RubySet.wordOf x) f = some s' ∧ Rep n s' B := by
  rcases h.cases hn with ⟨hzero, -, -⟩ | ⟨-, w, hw, hholds⟩
  · omega
  · have hlt : 0 < s.array.length := by rw [hw]; exact Nat.zero_lt_one
    rw [wordOf_small (by omega), RubySet.setWord, if_pos hlt]
    refine ⟨_, rfl, h.size, hB, ?_⟩
    intro v hv
    change v ∈ s.array.modify 0 f at hv
    rw [hw] at hv
    rw [mem_singleton.mp hv]
    exact hf w hholds

theorem Rep.add : ∃ s', s.add x = some s' ∧ Rep n s' (insert x A) := by
  refine h.setWord hn hx ?_ ?_
  · intro w hw
    rw [bitOf_small (by omega)]
    exact hw.insert (by omega)
  · exact Finset.insert_subset (Finset.mem_range.mpr hx) h.below

theorem Rep.remove : ∃ s', s.remove x = some s' ∧ Rep n s' (A.erase x) := by
  refine h.setWord hn hx ?_ ?_
  · intro w hw
    rw [bitOf_small (by omega)]
    exact hw.erase (by omega)
  · exact (Finset.erase_subset x A).trans h.below

end

/-- **Two sets are combined** word by word. -/
theorem Rep.combine {C : Finset Nat} (hs : Rep n s A) (ht : Rep n t B)
    {f : BitVec 64 → BitVec 64 → BitVec 64} (hf : ∀ w v, Holds w A → Holds v B → Holds (f w v) C)
    (hC : C ⊆ Finset.range n) : ∃ s', RubySet.combine f s t = some s' ∧ Rep n s' C := by
  have hsize : s.nSize = t.nSize := hs.size.trans ht.size.symm
  rw [RubySet.combine, dif_pos hsize]
  refine ⟨_, rfl, hs.size, hC, ?_⟩
  intro u hu
  change u ∈ List.zipWith f s.array t.array at hu
  rw [← map_uncurry_zip_eq_zipWith, List.mem_map] at hu
  obtain ⟨⟨w, v⟩, hwv, rfl⟩ := hu
  obtain ⟨hw, hv⟩ := of_mem_zip hwv
  exact hf w v (hs.words w hw) (ht.words v hv)

theorem Rep.clear (h : Rep n s A) : Rep n s.clear ∅ where
  size := h.size
  below := Finset.empty_subset _
  words := by
    intro w hw
    obtain ⟨-, -, rfl⟩ := List.mem_map.mp hw
    exact Holds.zero

/-- The trimmed word of a broadcast has the elements below the size, up to 31. -/
theorem holds_trimmed (hn : n ≤ 31) :
    Holds (trimLoop (64 - (n &&& indexMask)) (BitVec.allOnes 64 >>> 1) (BitVec.allOnes 64)) (Finset.range n) := by
  have hmask : n &&& indexMask = n := by
    show n &&& (2 ^ 5 - 1) = n
    rw [Nat.and_two_pow_sub_one_eq_mod]
    omega
  intro j
  rw [getLsbD_trimLoop, BitVec.getLsbD_allOnes, ← Bool.decide_and, decide_eq_decide, Finset.mem_range]
  omega

section

variable (h : Rep n s A)

include h

/-- **Broadcast** is the set of all elements, up to 31. -/
theorem Rep.broadcast (hn : n ≤ 31) : ∃ s', s.broadcast = some s' ∧ Rep n s' (Finset.range n) := by
  unfold RubySet.broadcast RubySet.clearExcess
  rcases h.cases (by omega) with ⟨hzero, harray, -⟩ | ⟨hpos, w, hw, -⟩
  · rw [if_neg (by show ¬ s.nSize % 65 ≠ 0; rw [h.size]; omega)]
    refine ⟨_, rfl, h.size, Finset.Subset.refl _, ?_⟩
    intro v hv
    change v ∈ s.array.map _ at hv
    rw [harray] at hv
    cases hv
  · rw [if_pos (by show s.nSize % 65 ≠ 0; rw [h.size]; omega)]
    have harray : (s.fill (BitVec.allOnes 64)).array = [BitVec.allOnes 64] := by
      show s.array.map _ = _
      rw [hw]
      rfl
    rw [RubySet.setWord, if_pos (by rw [harray]; exact Nat.zero_lt_one)]
    refine ⟨_, rfl, h.size, Finset.Subset.refl _, ?_⟩
    intro v hv
    change v ∈ (s.fill (BitVec.allOnes 64)).array.modify _ _ at hv
    rw [harray] at hv
    rw [mem_singleton.mp hv]
    show Holds (trimLoop (64 - (s.nSize &&& indexMask)) _ _) _
    rw [h.size]
    exact holds_trimmed hn

/-! ## The questions -/

theorem Rep.isElement (hn : n ≤ 32) (hx : x < n) : s.isElement x = some (decide (x ∈ A)) := by
  rcases h.cases hn with ⟨hzero, -, -⟩ | ⟨-, w, hw, hholds⟩
  · omega
  · rw [RubySet.isElement, wordOf_small (by omega), bitOf_small (by omega), hw]
    have htest := hholds.and_twoPow_ne_zero (i := x) (by omega)
    show some (w &&& BitVec.twoPow 64 x != 0) = some (decide (x ∈ A))
    rw [some.injEq, Bool.eq_iff_iff, bne_iff_ne, decide_eq_true_iff]
    exact htest

theorem Rep.count (hn : n ≤ 32) : s.count = A.card := by
  rcases h.cases hn with ⟨-, harray, rfl⟩ | ⟨-, w, hw, hholds⟩
  · rw [RubySet.count, harray]
    rfl
  · rw [RubySet.count, hw]
    show countLoop w longBits (BitVec.twoPow 64 0) 0 = A.card
    rw [countLoop_eq]
    simp only [Nat.zero_add]
    exact hholds.countP_eq_card (by decide)

theorem Rep.isEmpty (hn : n ≤ 32) : s.isEmpty = decide (A = ∅) := by
  rcases h.cases hn with ⟨-, harray, rfl⟩ | ⟨-, w, hw, hholds⟩
  · rw [RubySet.isEmpty, harray]
    simp
  · rw [RubySet.isEmpty, hw, Bool.eq_iff_iff, decide_eq_true_iff, ← hholds.eq_iff Holds.zero]
    simp

/-- The test for a broadcast, up to 31 elements. -/
theorem Rep.isBroadcast (hn : n ≤ 31) : s.isBroadcast = some (decide (A = Finset.range n)) := by
  have hmod : s.nSize % longBits = n := by
    rw [h.size]
    show n % 65 = n
    omega
  unfold RubySet.isBroadcast RubySet.lastLoaded
  rw [hmod]
  rcases h.cases (by omega) with ⟨rfl, harray, rfl⟩ | ⟨hpos, w, hw, hholds⟩
  · rw [harray]
    simp
  · have hne : n ≠ 0 := by omega
    rw [hw, if_neg hne, if_neg hne]
    have hall : allLoop w n (BitVec.twoPow 64 0) = true ↔ A = Finset.range n := by
      rw [allLoop_iff]
      simp only [Nat.zero_add]
      constructor
      · intro hbits
        refine Finset.Subset.antisymm h.below ?_
        intro j hj
        have hbit := hbits j (Finset.mem_range.mp hj)
        rw [hholds j] at hbit
        exact of_decide_eq_true hbit
      · intro heq j hj
        rw [hholds j, heq]
        exact decide_eq_true (Finset.mem_range.mpr hj)
    have hloop : allLoop w n 1 = decide (A = Finset.range n) := by
      rw [Bool.eq_iff_iff, decide_eq_true_iff]
      exact hall
    simpa using hloop

/-- The smallest element is found, up to 31 elements. -/
theorem Rep.smallestElement (hn : n ≤ 31) (m : Nat) : s.smallestElement = some m ↔ m ∈ A ∧ ∀ x ∈ A, m ≤ x := by
  rw [RubySet.smallestElement, h.count (by omega)]
  by_cases hcard : 0 < A.card
  · rw [if_pos hcard]
    obtain ⟨a, ha⟩ := Finset.card_pos.mp hcard
    rcases h.cases (by omega) with ⟨-, -, rfl⟩ | ⟨-, w, hw, hholds⟩
    · cases ha
    · have hne : w ≠ 0 := by
        intro hzero
        have hempty := (hholds.eq_iff Holds.zero).mp hzero
        rw [hempty] at ha
        cases ha
      rw [hw, RubySet.smallestLoop, if_pos hne, Nat.mul_zero]
      have hspec := lowestLoop_spec w longBits 0
      have hbelow : ∀ x ∈ A, x < longBits := by
        intro x hx
        have := hholds.lt_of_mem hx
        show x < 65
        omega
      split at hspec
      · -- the loop cannot miss the element `a`
        have hbit := hspec a (hbelow a ha)
        rw [hholds a, decide_eq_true ha] at hbit
        cases hbit
      · rename_i m' hsome
        obtain ⟨i, -, hm', hbit, hlow⟩ := hspec
        rw [Nat.zero_add] at hm'
        subst hm'
        rw [hsome]
        have hmem : m' ∈ A := by
          rw [hholds m'] at hbit
          exact of_decide_eq_true hbit
        have hleast : ∀ x ∈ A, m' ≤ x := by
          intro x hx
          by_contra hlt
          have hbit' := hlow x (by omega)
          rw [hholds x, decide_eq_true hx] at hbit'
          cases hbit'
        constructor
        · intro heq
          cases heq
          exact ⟨hmem, hleast⟩
        · rintro ⟨hm, hle⟩
          rw [Nat.le_antisymm (hleast m hm) (hle m' hmem)]
  · have hempty : A = ∅ := Finset.card_eq_zero.mp (by omega)
    subst hempty
    simp

/-- All queries of one set. -/
theorem Rep.agrees (hn : n ≤ 31) : Agrees n s A where
  isElement := fun _ hx => h.isElement (by omega) hx
  count := h.count (by omega)
  isEmpty := h.isEmpty (by omega)
  isBroadcast := h.isBroadcast hn
  smallestElement := h.smallestElement hn

end

/-- **Two sets are compared** word by word. -/
theorem Rep.compare (P : Prop) [Decidable P] {f : BitVec 64 → BitVec 64 → Bool} (hs : Rep n s A)
    (ht : Rep n t B) (hn : n ≤ 32) (hempty : A = ∅ → B = ∅ → P)
    (hf : ∀ w v, Holds w A → Holds v B → (f w v = true ↔ P)) : RubySet.compare f s t = decide P := by
  rw [Bool.eq_iff_iff]
  unfold RubySet.compare
  rcases hs.cases hn with ⟨hzero, hsa, hA⟩ | ⟨hpos, w, hw, hholds⟩
  · rcases ht.cases hn with ⟨-, -, hB⟩ | ⟨hpos', -⟩
    · rw [hsa]
      simp [hempty hA hB]
    · omega
  · rcases ht.cases hn with ⟨hzero', -⟩ | ⟨-, v, hv, hholds'⟩
    · omega
    · rw [hw, hv]
      simp [hf w v hholds hholds']

/-- All queries of two sets. -/
theorem Rep.agreeTogether (hs : Rep n s A) (ht : Rep n t B) (hn : n ≤ 32) : AgreeTogether s t A B where
  isEqual := by
    rw [RubySet.isEqual, if_pos (hs.size.trans ht.size.symm), Rep.compare (A = B) hs ht hn]
    · intro hA hB
      rw [hA, hB]
    · intro w v hw hv
      rw [beq_iff_eq]
      exact hw.eq_iff hv
  isSuperset := by
    rw [RubySet.isSuperset, if_pos (hs.size.trans ht.size.symm), Rep.compare (B ⊆ A) hs ht hn]
    · intro _ hB
      rw [hB]
      exact Finset.empty_subset _
    · intro w v hw hv
      rw [beq_iff_eq]
      exact hw.covers_iff hv
  intersectionIsEmpty := by
    have hlen : s.array.length ≤ t.array.length := by
      rw [s.length_array, t.length_array, hs.size, ht.size]
    rw [RubySet.intersectionIsEmpty, if_pos hlen, Rep.compare (Disjoint A B) hs ht hn]
    · intro hA _
      rw [hA]
      exact Finset.disjoint_empty_left _
    · intro w v hw hv
      rw [beq_iff_eq]
      exact hw.and_eq_zero hv

/-! ## Sequences -/

variable {regs : Nat → RubySet} {sets : Nat → Finset Nat}

/-- An assignment to one of the variables of a program. -/
theorem rep_update (h : ∀ i, Rep n (regs i) (sets i)) (k : Nat) (hs : Rep n s A) :
    ∀ i, Rep n (update regs k s i) (update sets k A i) := by
  intro i
  by_cases hik : i = k
  · subst hik
    rw [update_self, update_self]
    exact hs
  · rw [update_of_ne hik, update_of_ne hik]
    exact h i

/-- **One operation on small sets.** -/
theorem rep_run (hn : n ≤ 31) (h : ∀ i, Rep n (regs i) (sets i)) {op : SetOp} (hop : op.Within n) :
    ∃ regs', op.run regs = some regs' ∧ ∀ i, Rep n (regs' i) (op.mean n sets i) := by
  -- an operation that produces one set
  have hone : ∀ {x : Option RubySet} {C : Finset Nat} (k : Nat), (∃ s', x = some s' ∧ Rep n s' C) →
      ∃ regs', x.map (update regs k) = some regs' ∧ ∀ i, Rep n (regs' i) (update sets k C i) := by
    rintro x C k ⟨s', rfl, hs'⟩
    exact ⟨_, rfl, rep_update h k hs'⟩
  have hunion : ∀ i j, sets i ∪ sets j ⊆ Finset.range n := by
    intro i j
    exact Finset.union_subset (h i).below (h j).below
  cases op with
  | add i x => exact hone i ((h i).add (by omega) hop)
  | remove i x => exact hone i ((h i).remove (by omega) hop)
  | clear i => exact ⟨_, rfl, rep_update h i (h i).clear⟩
  | broadcast i => exact hone i ((h i).broadcast hn)
  | addSet i j =>
    exact hone i ((h i).combine (h j) (fun _ _ hw hv => hw.union hv) (hunion i j))
  | removeSet i j =>
    refine hone i ((h i).combine (h j) (fun _ _ hw hv => hw.sdiff hv) ?_)
    exact Finset.sdiff_subset.trans (h i).below
  | or i j k =>
    exact hone k ((h i).combine (h j) (fun _ _ hw hv => hw.union hv) (hunion i j))
  | and i j k =>
    refine hone k ((h i).combine (h j) (fun _ _ hw hv => hw.inter hv) ?_)
    exact Finset.inter_subset_left.trans (h i).below

/-- **Any sequence of operations on small sets.** -/
theorem rep_exec (hn : n ≤ 31) (ops : List SetOp) (hops : ∀ op ∈ ops, op.Within n)
    (h : ∀ i, Rep n (regs i) (sets i)) : ∃ regs', exec SetOp.run regs ops = some regs' ∧
      ∀ i, Rep n (regs' i) (ops.foldl (SetOp.mean n) sets i) := by
  induction ops generalizing regs sets with
  | nil => exact ⟨regs, rfl, h⟩
  | cons op ops ih =>
    obtain ⟨regs₁, hrun, h₁⟩ := rep_run hn h (hops op (mem_cons_self ..))
    obtain ⟨regs', hexec, h'⟩ := ih (forall_mem_cons.mp hops).2 h₁
    refine ⟨regs', ?_, h'⟩
    rw [exec, hrun, bind_some, hexec]

/-- **Programs over sets of up to 31 elements** compute what they would with finite sets. -/
theorem faithful_of_le (hn : n ≤ 31) : Faithful n := by
  intro ops hops
  obtain ⟨regs, hexec, h⟩ := rep_exec hn ops hops fun _ => rep_ofSize n
  exact ⟨regs, hexec, fun i => (h i).agrees hn, fun i j => (h i).agreeTogether (h j) (by omega)⟩

end Small

/-! ## Larger sets -/

/-- From 33 elements on the last one is written behind the array. -/
theorem add_last_none {n : Nat} (hn : 33 ≤ n) : (RubySet.ofSize n).add (n - 1) = none := by
  rw [RubySet.add, RubySet.setWord, if_neg]
  show ¬ (n - 1) >>> 5 < (List.replicate (arrayLen n) (0 : BitVec 64)).length
  rw [length_replicate, Nat.shiftRight_eq_div_pow]
  show ¬ (n - 1) / 2 ^ 5 < (n + 65 - 1) / 65
  omega

/-- With 32 elements a broadcast is empty: the mask is shifted 64 times. -/
theorem broadcast_32 : ((RubySet.ofSize 32).broadcast.bind fun s => s.isElement 0) = some false := by
  decide +kernel

/-- **Ruby's `Set` is a set exactly up to 31 elements.** -/
theorem set_faithful_iff (n : Nat) : Faithful n ↔ n ≤ 31 := by
  constructor
  · intro h
    by_contra hn
    rcases Nat.lt_or_ge n 33 with hlt | hge
    · -- one broadcast, and then element 0
      obtain rfl : n = 32 := by omega
      obtain ⟨regs, hexec, hagree, -⟩ := h [.broadcast 0] (by decide)
      have helem := (hagree 0).isElement 0 (by omega)
      rw [exec, SetOp.run] at hexec
      obtain ⟨regs₁, hregs₁, hexec⟩ := bind_eq_some_iff.mp hexec
      obtain ⟨s, hs, rfl⟩ := map_eq_some_iff.mp hregs₁
      cases hexec
      have hfalse := broadcast_32
      rw [hs, bind_some] at hfalse
      rw [update_self, hfalse] at helem
      revert helem
      decide
    · -- the highest element cannot even be added
      obtain ⟨regs, hexec, -⟩ := h [.add 0 (n - 1)] (by
        intro op hop
        rw [mem_singleton.mp hop]
        show n - 1 < n
        omega)
      rw [exec, SetOp.run, add_last_none hge] at hexec
      cases hexec
  · exact faithful_of_le

/-- A set of 64 nodes, 65 bits to a word: node 40 is looked for behind the array; and with 32 nodes a
    broadcast leaves the set empty. -/
theorem set_of_64_out_of_array : (RubySet.ofSize 64).add 40 = none ∧ (RubySet.ofSize 64).isElement 40 = none ∧
      (RubySet.ofSize 32).broadcast.map RubySet.isEmpty = some true := by
  refine ⟨rfl, ?_, ?_⟩ <;> decide +kernel

end NvpSim.Ruby
