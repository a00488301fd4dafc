/-
  `FuncPageTable`: the page table of an emulated process, a hash map from virtual pages to TLB
  entries, with a cache of three translations in front of it.

  The functions of `mem/page_table.hh` and `mem/page_table.cc`; `none` is a failed assertion or a
  `fatal`.  Addresses are 64-bit words, and a loop over a region goes from page to page modulo
  `2 ^ 64`.  A `TlbEntry` that `remap` default-constructs (its members are not initialised) is the
  arbitrary entry `uninit`.
-/
import Mathlib.Algebra.Ring.Nat
import Mathlib.Logic.Function.Basic

namespace NvpSim.Mem

/-- `TheISA::TlbEntry`: the members the page tables set. -/
structure TlbEntry where
  vaddr : Nat
  paddr : Nat
  uncacheable : Bool
  writable : Bool
  deriving DecidableEq, Repr

/-- `TlbEntry(asn, vaddr, paddr, uncacheable, read_only)`. -/
def TlbEntry.make (vaddr paddr : Nat) (uncacheable readOnly : Bool) : TlbEntry :=
  ⟨vaddr, paddr, uncacheable, !readOnly⟩

/-! ## Mapping flags -/

/-- `flags & Clobber`. -/
def flagClobber (flags : Nat) : Bool := flags &&& 1 != 0

/-- `flags & NotPresent`. -/
def flagNotPresent (flags : Nat) : Bool := flags &&& 2 != 0

/-- `flags & Uncacheable`. -/
def flagUncacheable (flags : Nat) : Bool := flags &&& 4 != 0

/-- `flags & ReadOnly`. -/
def flagReadOnly (flags : Nat) : Bool := flags &&& 8 != 0

/-! ## The translation cache -/

structure CacheElement where
  valid : Bool
  vaddr : Nat
  entry : TlbEntry

structure PTableCache where
  elem0 : CacheElement
  elem1 : CacheElement
  elem2 : CacheElement

namespace PTableCache

/-- The cache of a new page table: nothing valid. -/
def empty (e : TlbEntry) : PTableCache := ⟨⟨false, 0, e⟩, ⟨false, 0, e⟩, ⟨false, 0, e⟩⟩

def updateCache (c : PTableCache) (vaddr : Nat) (entry : TlbEntry) : PTableCache :=
  ⟨⟨true, vaddr, entry⟩, c.elem0, c.elem1⟩

def eraseCacheEntry (c : PTableCache) (vaddr : Nat) : PTableCache :=
  if c.elem0.valid && c.elem0.vaddr == vaddr then { c with elem0 := { c.elem0 with valid := false } }
  else if c.elem1.valid && c.elem1.vaddr == vaddr then
    { c with elem1 := { c.elem1 with valid := false } }
  else if c.elem2.valid && c.elem2.vaddr == vaddr then
    { c with elem2 := { c.elem2 with valid := false } }
  else c

/-- The three comparisons at the start of `lookup`. -/
def find (c : PTableCache) (pageAddr : Nat) : Option TlbEntry :=
  if c.elem0.valid && c.elem0.vaddr == pageAddr then some c.elem0.entry
  else if c.elem1.valid && c.elem1.vaddr == pageAddr then some c.elem1.entry
  else if c.elem2.valid && c.elem2.vaddr == pageAddr then some c.elem2.entry
  else none

end PTableCache

def pageAlign (pageSize a : Nat) : Nat := a - a % pageSize

def pageOffset (pageSize a : Nat) : Nat := a % pageSize

/-- How often the loop over a region runs: `size` goes down by a page as long as it is positive. -/
def pagesOf (pageSize : Nat) (size : Int) : Nat := ((size + pageSize - 1) / pageSize).toNat

/-- The next page of a region. -/
def nextPage (pageSize a : Nat) : Nat := (a + pageSize) % 2 ^ 64

/-! ## The functional page table -/

structure FuncPageTable where
  pTable : Nat → Option TlbEntry
  cache : PTableCache

namespace FuncPageTable

variable (pageSize : Nat) (uninit : TlbEntry)

def init : FuncPageTable := ⟨fun _ => none, .empty uninit⟩

/-- The loop of `map`. -/
def mapPages (flags : Nat) : Nat → FuncPageTable → Nat → Nat → Option FuncPageTable
  | 0, t, _, _ => some t
  | n + 1, t, vaddr, paddr =>
    if !flagClobber flags && (t.pTable vaddr).isSome then none
    else
      let entry := TlbEntry.make vaddr paddr (flagUncacheable flags) (flagReadOnly flags)
      mapPages flags n ⟨Function.update t.pTable vaddr (some entry),
          (t.cache.eraseCacheEntry vaddr).updateCache vaddr entry⟩ (nextPage pageSize vaddr) (nextPage pageSize paddr)

def map (t : FuncPageTable) (vaddr paddr : Nat) (size : Int) (flags : Nat) : Option FuncPageTable :=
  if pageOffset pageSize vaddr = 0 then
    t.mapPages pageSize flags (pagesOf pageSize size) vaddr paddr
  else none

/-- The loop of `remap`. -/
def remapPages : Nat → FuncPageTable → Nat → Nat → Option FuncPageTable
  | 0, t, _, _ => some t
  | n + 1, t, vaddr, newVaddr => (t.pTable vaddr).bind fun entry =>
    -- pTable[new_vaddr] = pTable[vaddr]; pTable.erase(vaddr)
    let moved := Function.update (Function.update t.pTable newVaddr (some entry)) vaddr none
    -- pTable[new_vaddr].updateVaddr(new_vaddr)
    let entry' := { (moved newVaddr).getD uninit with vaddr := newVaddr }
    remapPages n ⟨Function.update moved newVaddr (some entry'),
        (t.cache.eraseCacheEntry vaddr).updateCache newVaddr entry'⟩
      (nextPage pageSize vaddr) (nextPage pageSize newVaddr)

def remap (t : FuncPageTable) (vaddr : Nat) (size : Int) (newVaddr : Nat) : Option FuncPageTable :=
  if pageOffset pageSize vaddr = 0 ∧ pageOffset pageSize newVaddr = 0 then
    t.remapPages pageSize uninit (pagesOf pageSize size) vaddr newVaddr
  else none

/-- The loop of `unmap`. -/
def unmapPages : Nat → FuncPageTable → Nat → Option FuncPageTable
  | 0, t, _ => some t
  | n + 1, t, vaddr =>
    if (t.pTable vaddr).isSome then
      unmapPages n ⟨Function.update t.pTable vaddr none, t.cache.eraseCacheEntry vaddr⟩ (nextPage pageSize vaddr)
    else none

def unmap (t : FuncPageTable) (vaddr : Nat) (size : Int) : Option FuncPageTable :=
  if pageOffset pageSize vaddr = 0 then t.unmapPages pageSize (pagesOf pageSize size) vaddr else none

/-- The loop of `isUnmapped`. -/
def pagesUnmapped (t : FuncPageTable) : Nat → Nat → Bool
  | 0, _ => true
  | n + 1, vaddr =>
    if (t.pTable vaddr).isSome then false else t.pagesUnmapped n (nextPage pageSize vaddr)

def isUnmapped (t : FuncPageTable) (vaddr : Nat) (size : Int) : Option Bool :=
  if pageOffset pageSize vaddr = 0 then some (t.pagesUnmapped pageSize (pagesOf pageSize size) vaddr)
  else none

def lookup (t : FuncPageTable) (vaddr : Nat) : FuncPageTable × Option TlbEntry :=
  let pageAddr := pageAlign pageSize vaddr
  match t.cache.find pageAddr with
  | some entry => (t, some entry)
  | none =>
    match t.pTable pageAddr with
    | none => (t, none)
    | some entry => ({ t with cache := t.cache.updateCache pageAddr entry }, some entry)

end FuncPageTable

/-! ## Calls -/

/-- A call on a page table. -/
inductive PageCall where
  | map (vaddr paddr : Nat) (size : Int) (flags : Nat)
  | remap (vaddr : Nat) (size : Int) (newVaddr : Nat)
  | unmap (vaddr : Nat) (size : Int)
  | isUnmapped (vaddr : Nat) (size : Int)
  | lookup (vaddr : Nat)

/-- What a call tells its caller: for `lookup`, as `translate` uses it, the page the address is mapped
    to. -/
inductive PageAnswer where
  | done
  | unmapped (b : Bool)
  | page (pageStart : Option Nat)
  deriving DecidableEq, Repr

/-- A call on the functional page table. -/
def FuncPageTable.call (pageSize : Nat) (uninit : TlbEntry) (t : FuncPageTable) :
    PageCall → Option (FuncPageTable × PageAnswer)
  | .map vaddr paddr size flags => (t.map pageSize vaddr paddr size flags).map (·, .done)
  | .remap vaddr size newVaddr => (t.remap pageSize uninit vaddr size newVaddr).map (·, .done)
  | .unmap vaddr size => (t.unmap pageSize vaddr size).map (·, .done)
  | .isUnmapped vaddr size => (t.isUnmapped pageSize vaddr size).map fun b => (t, .unmapped b)
  | .lookup vaddr =>
    let (t', entry) := t.lookup pageSize vaddr
    some (t', .page (entry.map (·.paddr)))

end NvpSim.Mem
