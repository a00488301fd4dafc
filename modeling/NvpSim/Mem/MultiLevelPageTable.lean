/-
  `MultiLevelPageTable`: the page table of an emulated process as the hardware would walk it, a tree of
  tables in the simulated physical memory.

  The functions of `mem/multi_level_page_table_impl.hh` for any `ISAOps`, and the x86 instance of
  `arch/x86/pagetable.hh`.  An entry is a 64-bit word in memory; an entry with page number 0 counts as
  absent, in the inner tables and in the last one.  A call that does not return stops with `fatal`
  (or a failed assertion), or because the system is out of memory.
-/
import NvpSim.Lib.Words
import NvpSim.Base.Bitfield
import NvpSim.Base.AddrRange
import NvpSim.Mem.PageTable

namespace NvpSim.Mem

open NvpSim.Lib NvpSim.Base

/-- Why a call does not return. -/
inductive Stop where
  | fatal
  | outOfMemory
  deriving DecidableEq, Repr

/-- What an ISA supplies: its page size and table layout, and its page table operations. -/
structure ISAOps where
  pageShift : Nat
  pageTableLayout : List Nat
  setPTEFields : BitVec 64 → Nat → BitVec 64
  pteNotPresent : Nat
  pteUncacheable : Nat
  pteReadOnly : Nat
  getPnum : BitVec 64 → Nat
  setPnum : BitVec 64 → Nat → BitVec 64
  isUncacheable : BitVec 64 → Bool
  isReadOnly : BitVec 64 → Bool
  getOffsets : Nat → List Nat

/-- `sizeof(PageTableEntry)` and its logarithm. -/
def pteBytes : Nat := 8
def logPteBytes : Nat := 3

namespace ISAOps

def pageBytes (ops : ISAOps) : Nat := 2 ^ ops.pageShift

/-- The address of the entry with an offset in the table at a page. -/
def slot (ops : ISAOps) (pnum offset : Nat) : Nat := pnum * ops.pageBytes + offset * pteBytes

end ISAOps

/-! ## The system -/

/-- The physical memory of `System`, and its next free page. -/
structure SystemPages where
  mem : Buffer (BitVec 8)
  pagePtr : Nat
  totalSize : Nat

def SystemPages.allocPhysPages (ops : ISAOps) (sys : SystemPages) (npages : Nat) : Except Stop (Nat × SystemPages) :=
  let next := sys.pagePtr + npages
  -- the region of the m5 pseudo operations
  let inM5ops := (AddrRange.ofEnds 0xffff0000 0xffffffff).contains (next * ops.pageBytes)
  let returnAddr := if inM5ops then 0xffffffff else sys.pagePtr * ops.pageBytes
  let pagePtr := if inM5ops then 0xffffffff / ops.pageBytes else next
  if sys.totalSize < pagePtr * ops.pageBytes then .error .outOfMemory
  else .ok (returnAddr, { sys with pagePtr := pagePtr })

/-! ## The page table -/

structure MultiLevelPageTable where
  system : SystemPages
  basePtr : Nat
  cache : PTableCache

namespace MultiLevelPageTable

variable (ops : ISAOps)

/-- Pages for a table of `2 ^ logSize` entries, filled with zeros. -/
def allocTable (sys : SystemPages) (logSize : Nat) : Except Stop (Nat × SystemPages) :=
  let logReqSize := logPteBytes + logSize
  if logReqSize < ops.pageShift then .error .fatal
  else
    let npages := 2 ^ (logReqSize - ops.pageShift)
    match sys.allocPhysPages ops npages with
    | .error e => .error e
    | .ok (paddr, sys) =>
      .ok (paddr, { sys with mem := memset sys.mem paddr 0 (npages * ops.pageBytes) })

/-- `initState(tc)`, with the base pointer of the thread context. -/
def initState (uninit : TlbEntry) (sys : SystemPages) (contextPtr : Nat) : Except Stop MultiLevelPageTable :=
  let basePtr := if contextPtr = 0 then contextPtr + 1 else contextPtr
  let top := ops.pageTableLayout.getD (ops.pageTableLayout.length - 1) 0
  match allocTable ops { sys with pagePtr := basePtr } top with
  | .error e => .error e
  | .ok (_, sys) => .ok ⟨sys, basePtr, .empty uninit⟩

/-- The loop of `walk` from level `i` down: the address of the entry in the last table, or nothing. -/
def walkLevels (offsets : List Nat) (allocate : Bool) :
    Nat → Nat → SystemPages → Except Stop (Option Nat × SystemPages)
  | 0, levelBase, sys => .ok (some (ops.slot levelBase (offsets.getD 0 0)), sys)
  | i + 1, levelBase, sys =>
    let entryAddr := ops.slot levelBase (offsets.getD (i + 1) 0)
    let entry := readWord sys.mem entryAddr
    let nextEntryPnum := ops.getPnum entry
    if nextEntryPnum = 0 then
      if !allocate then .ok (none, sys)
      else
        match allocTable ops sys (ops.pageTableLayout.getD i 0) with
        | .error e => .error e
        | .ok (nextEntryPaddr, sys) =>
          let nextEntryPnum := nextEntryPaddr / ops.pageBytes
          let entry := ops.setPTEFields (ops.setPnum entry nextEntryPnum) 0
          walkLevels offsets allocate i nextEntryPnum { sys with mem := writeWord sys.mem entryAddr entry }
    else walkLevels offsets allocate i nextEntryPnum sys

def walk (t : MultiLevelPageTable) (vaddr : Nat) (allocate : Bool) : Except Stop (Option Nat × MultiLevelPageTable) :=
  match walkLevels ops (ops.getOffsets vaddr) allocate (ops.pageTableLayout.length - 1) t.basePtr t.system with
  | .error e => .error e
  | .ok (pteAddr, sys) => .ok (pteAddr, { t with system := sys })

/-- `p.read<PageTableEntry>(addr)`. -/
def read (t : MultiLevelPageTable) (addr : Nat) : BitVec 64 := readWord t.system.mem addr

/-- `p.write<PageTableEntry>(addr, entry)`. -/
def write (t : MultiLevelPageTable) (addr : Nat) (entry : BitVec 64) : MultiLevelPageTable :=
  { t with system := { t.system with mem := writeWord t.system.mem addr entry } }

/-- The flags of an entry for the mapping flags of `map`. -/
def pteFlags (flags : Nat) : Nat :=
  (if flagNotPresent flags then ops.pteNotPresent else 0) |||
    (if flagUncacheable flags then ops.pteUncacheable else 0) ||| (if flagReadOnly flags then ops.pteReadOnly else 0)

/-- The loop of `map`. -/
def mapPages (flags : Nat) : Nat → MultiLevelPageTable → Nat → Nat → Except Stop MultiLevelPageTable
  | 0, t, _, _ => .ok t
  | n + 1, t, vaddr, paddr =>
    match t.walk ops vaddr true with
    | .error e => .error e
    | .ok (none, t) => mapPages flags n t (nextPage ops.pageBytes vaddr) (nextPage ops.pageBytes paddr)
    | .ok (some pteAddr, t) =>
      let pte := t.read pteAddr
      if !flagClobber flags && ops.getPnum pte != 0 then .error .fatal
      else
        let pte := ops.setPTEFields (ops.setPnum pte (paddr / ops.pageBytes)) (pteFlags ops flags)
        let entry := TlbEntry.make vaddr paddr (flagUncacheable flags) (flagReadOnly flags)
        let t := t.write pteAddr pte
        mapPages flags n { t with cache := (t.cache.eraseCacheEntry vaddr).updateCache vaddr entry }
          (nextPage ops.pageBytes vaddr) (nextPage ops.pageBytes paddr)

def map (t : MultiLevelPageTable) (vaddr paddr : Nat) (size : Int) (flags : Nat) : Except Stop MultiLevelPageTable :=
  if pageOffset ops.pageBytes vaddr = 0 then
    t.mapPages ops flags (pagesOf ops.pageBytes size) vaddr paddr
  else .error .fatal

/-- The loop of `remap`. -/
def remapPages : Nat → MultiLevelPageTable → Nat → Nat → Except Stop MultiLevelPageTable
  | 0, t, _, _ => .ok t
  | n + 1, t, vaddr, newVaddr =>
    match t.walk ops vaddr false with
    | .error e => .error e
    | .ok (none, _) => .error .fatal
    | .ok (some pteAddr, t) =>
      let pte := t.read pteAddr
      -- a page number, in spite of its name
      let paddr := ops.getPnum pte
      if paddr = 0 then .error .fatal
      else
        let pte := ops.setPnum pte 0
        match (t.write pteAddr pte).walk ops newVaddr true with
        | .error e => .error e
        | .ok (none, _) => .error .fatal
        | .ok (some newPteAddr, t) =>
          let newPte := ops.setPTEFields (ops.setPnum (t.read newPteAddr) (paddr / ops.pageBytes)) 0
          let entry := TlbEntry.make newVaddr paddr (ops.isUncacheable pte) (ops.isReadOnly pte)
          let t := t.write newPteAddr newPte
          remapPages n { t with cache := (t.cache.eraseCacheEntry vaddr).updateCache newVaddr entry }
            (nextPage ops.pageBytes vaddr) (nextPage ops.pageBytes newVaddr)

def remap (t : MultiLevelPageTable) (vaddr : Nat) (size : Int) (newVaddr : Nat) : Except Stop MultiLevelPageTable :=
  if pageOffset ops.pageBytes vaddr = 0 ∧ pageOffset ops.pageBytes newVaddr = 0 then
    t.remapPages ops (pagesOf ops.pageBytes size) vaddr newVaddr
  else .error .fatal

/-- The loop of `unmap`. -/
def unmapPages : Nat → MultiLevelPageTable → Nat → Except Stop MultiLevelPageTable
  | 0, t, _ => .ok t
  | n + 1, t, vaddr =>
    match t.walk ops vaddr false with
    | .error e => .error e
    | .ok (none, _) => .error .fatal
    | .ok (some pteAddr, t) =>
      let pte := t.read pteAddr
      if ops.getPnum pte = 0 then .error .fatal
      else
        let t := t.write pteAddr (ops.setPnum pte 0)
        unmapPages n { t with cache := t.cache.eraseCacheEntry vaddr } (nextPage ops.pageBytes vaddr)

def unmap (t : MultiLevelPageTable) (vaddr : Nat) (size : Int) : Except Stop MultiLevelPageTable :=
  if pageOffset ops.pageBytes vaddr = 0 then t.unmapPages ops (pagesOf ops.pageBytes size) vaddr
  else .error .fatal

/-- The loop of `isUnmapped`. -/
def pagesUnmapped (t : MultiLevelPageTable) : Nat → Nat → Except Stop Bool
  | 0, _ => .ok true
  | n + 1, vaddr =>
    match t.walk ops vaddr false with
    | .error e => .error e
    | .ok (none, _) => t.pagesUnmapped n (nextPage ops.pageBytes vaddr)
    | .ok (some pteAddr, _) =>
      if ops.getPnum (t.read pteAddr) ≠ 0 then .ok false
      else t.pagesUnmapped n (nextPage ops.pageBytes vaddr)

def isUnmapped (t : MultiLevelPageTable) (vaddr : Nat) (size : Int) : Except Stop Bool :=
  if pageOffset ops.pageBytes vaddr = 0 then t.pagesUnmapped ops (pagesOf ops.pageBytes size) vaddr
  else .error .fatal

def lookup (t : MultiLevelPageTable) (vaddr : Nat) : Except Stop (MultiLevelPageTable × Option TlbEntry) :=
  let pageAddr := pageAlign ops.pageBytes vaddr
  match t.cache.find pageAddr with
  | some entry => .ok (t, some entry)
  | none =>
    match t.walk ops pageAddr false with
    | .error e => .error e
    | .ok (none, t) => .ok (t, none)
    | .ok (some pteAddr, t) =>
      let pte := t.read pteAddr
      let pnum := ops.getPnum pte
      if pnum = 0 then .ok (t, none)
      else
        let entry := TlbEntry.make vaddr (pnum * ops.pageBytes) (ops.isUncacheable pte) (ops.isReadOnly pte)
        .ok ({ t with cache := t.cache.updateCache pageAddr entry }, some entry)

/-- A call on the multi-level page table. -/
def call (t : MultiLevelPageTable) : PageCall → Except Stop (MultiLevelPageTable × PageAnswer)
  | .map vaddr paddr size flags => (t.map ops vaddr paddr size flags).map (·, .done)
  | .remap vaddr size newVaddr => (t.remap ops vaddr size newVaddr).map (·, .done)
  | .unmap vaddr size => (t.unmap ops vaddr size).map (·, .done)
  | .isUnmapped vaddr size => (t.isUnmapped ops vaddr size).map fun b => (t, .unmapped b)
  | .lookup vaddr => (t.lookup ops vaddr).map fun (t', entry) => (t', .page (entry.map (·.paddr)))

end MultiLevelPageTable

/-! ## x86 -/

namespace X86

open Bitfield

def setPTEFields (pte : BitVec 64) (flags : Nat) : BitVec 64 :=
  let pte := insertBits pte 0 0 (if flags &&& 1 ≠ 0 then 0 else 1)
  let pte := insertBits pte 4 4 (if flags &&& 8 ≠ 0 then 1 else 0)
  let pte := insertBits pte 1 1 (if flags &&& 4 ≠ 0 then 0 else 1)
  insertBits pte 2 2 (if flags &&& 2 ≠ 0 then 0 else 1)

/-- `PageTableOps::getOffsets(vaddr)`: `longl1`, `longl2`, `longl3` and `longl4`. -/
def getOffsets (vaddr : Nat) : List Nat :=
  let addr := BitVec.ofNat 64 vaddr
  [(bits addr 20 12).toNat, (bits addr 29 21).toNat, (bits addr 38 30).toNat, (bits addr 47 39).toNat]

/-- `X86ISA::PageTableOps`, with `PageShift`, `PageTableLayout` and `PTEField`. -/
def pageTableOps : ISAOps where
  pageShift := 12
  pageTableLayout := [9, 9, 9, 9]
  setPTEFields := setPTEFields
  pteNotPresent := 1
  pteUncacheable := 8
  pteReadOnly := 4
  getPnum := fun pte => (bits pte 51 12).toNat
  setPnum := fun pte paddr => insertBits pte 51 12 (BitVec.ofNat 64 paddr)
  isUncacheable := fun pte => bits pte 4 4 != 0
  isReadOnly := fun pte => bits pte 1 1 == 0
  getOffsets := getOffsets

/-- `PageTableOps::getBasePtr(tc)`: `pageTablePhysAddr` is `0x70000`. -/
def basePtr : Nat := (bits (0x70000 : BitVec 64) 51 12).toNat

end X86

end NvpSim.Mem
