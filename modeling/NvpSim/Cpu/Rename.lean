/-
  Register renaming in the out-of-order CPU, for one thread (`cpu/o3/rename_impl.hh`, `cpu/o3/rename_map.{hh,cc}`,
  `cpu/o3/free_list.hh`, `cpu/o3/regfile.{hh,cc}`, `cpu/reg_class.hh`).

  An architectural register is renamed to a fresh physical one of its class; the history buffer keeps, newest
  first, which took the place of which.  A commit frees the PREVIOUS registers of the oldest entries, a squash
  undoes the newest and frees the NEW ones.  Misc registers and the zero registers are not renamed, and leave
  an entry whose two registers are the same.

  An architectural register comes flattened, as the index within its class; the history has the unified
  index.  Scoreboard and statistics are left out.  A failed `assert`, a `panic` and an access outside a map are
  `none`.
-/
import Mathlib.Logic.Function.Basic

namespace NvpSim.Cpu

/-- The classes of registers that have physical registers. -/
inductive PhysClass where
  | int
  | float
  | cc
  deriving DecidableEq, Repr

/-- An architectural register, by class and index within the class. -/
inductive ArchReg where
  | reg (c : PhysClass) (idx : Nat)
  | misc (idx : Nat)
  deriving DecidableEq, Repr

/-- The constants of an ISA and the sizes of the register file; `zeroReg` of a class without a zero
    register is no index of the class. -/
structure RenameParams where
  numPhys : PhysClass → Nat
  numArch : PhysClass → Nat
  fpRegBase : Nat
  ccRegBase : Nat
  miscRegBase : Nat
  maxRegIndex : Nat
  zeroReg : PhysClass → Nat

namespace RenameParams

variable (p : RenameParams)

/-- The first physical register of a class. -/
def base : PhysClass → Nat
  | .int => 0
  | .float => p.numPhys .int
  | .cc => p.numPhys .int + p.numPhys .float

def totalNumPhysRegs : Nat := p.numPhys .int + p.numPhys .float + p.numPhys .cc

/-- `isIntPhysReg`, `isFloatPhysReg`, `isCCPhysReg`. -/
def isPhysReg (c : PhysClass) (r : Nat) : Bool := p.base c ≤ r && r < p.base c + p.numPhys c

/-- The sizes of the maps; that of the condition codes has the size of the one for floats. -/
def mapSize : PhysClass → Nat
  | .int => p.numArch .int
  | .float => p.numArch .float
  | .cc => p.numArch .float

/-- The unified index of a register. -/
def unified : ArchReg → Nat
  | .reg .int idx => idx
  | .reg .float idx => idx + p.fpRegBase
  | .reg .cc idx => idx + p.ccRegBase
  | .misc idx => idx + p.miscRegBase

def regIdxToClass (regIdx : Nat) : Option ArchReg :=
  if regIdx < p.maxRegIndex then
    if regIdx < p.fpRegBase then some (.reg .int regIdx)
    else if regIdx < p.ccRegBase then some (.reg .float (regIdx - p.fpRegBase))
    else if regIdx < p.miscRegBase then some (.reg .cc (regIdx - p.ccRegBase))
    else some (.misc (regIdx - p.miscRegBase))
  else none

end RenameParams

structure RenameHistory where
  instSeqNum : Nat
  archReg : Nat
  newPhysReg : Nat
  prevPhysReg : Nat
  deriving DecidableEq, Repr

/-- The rename map, the free lists and the history buffer of a thread. -/
structure RenameStage where
  map : PhysClass → Nat → Nat
  freeList : PhysClass → List Nat
  historyBuffer : List RenameHistory

namespace RenameStage

variable (p : RenameParams)

/-- Set an entry of the map of a class. -/
def setMap (s : RenameStage) (c : PhysClass) (idx phys : Nat) : RenameStage :=
  { s with map := Function.update s.map c (Function.update (s.map c) idx phys) }

/-- `addReg` of the free list of a class. -/
def pushFree (s : RenameStage) (c : PhysClass) (r : Nat) : RenameStage :=
  { s with freeList := Function.update s.freeList c (s.freeList c ++ [r]) }

def addReg (s : RenameStage) (r : Nat) : Option RenameStage :=
  if p.isPhysReg .int r then some (s.pushFree .int r)
  else if p.isPhysReg .float r then some (s.pushFree .float r)
  else if p.isPhysReg .cc r then some (s.pushFree .cc r)
  else none

/-- `UnifiedRenameMap::setEntry`, with the assertions of the map of each class. -/
def setEntry (s : RenameStage) (archReg phys : Nat) : Option RenameStage :=
  match p.regIdxToClass archReg with
  | some (.reg c idx) =>
    if p.isPhysReg c phys ∧ idx < p.mapSize c then some (s.setMap c idx phys) else none
  | some (.misc idx) => if phys = idx + p.totalNumPhysRegs then some s else none
  | none => none

/-- `SimpleRenameMap::rename`: the new and the previous register. -/
def renameSimple (s : RenameStage) (c : PhysClass) (idx : Nat) : Option (Nat × Nat × RenameStage) :=
  if idx < p.mapSize c then
    let prev := s.map c idx
    if idx ≠ p.zeroReg c then
      match s.freeList c with
      | [] => none
      | r :: rest =>
        let s := { s with freeList := Function.update s.freeList c rest }
        some (r, prev, s.setMap c idx r)
    else if prev = p.zeroReg c then some (p.zeroReg c, prev, s)
    else none
  else none

/-- `renameInt`, `renameFloat`, `renameCC` and `renameMisc`. -/
def renameReg (s : RenameStage) : ArchReg → Option (Nat × Nat × RenameStage)
  | .reg c idx =>
    (s.renameSimple p c idx).bind fun info => if p.isPhysReg c info.1 then some info else none
  | .misc idx => some (idx + p.totalNumPhysRegs, idx + p.totalNumPhysRegs, s)

/-- One turn of the loop of `renameDestRegs`. -/
def renameDest (s : RenameStage) (seqNum : Nat) (dest : ArchReg) : Option RenameStage :=
  (s.renameReg p dest).map fun info =>
    { info.2.2 with
      historyBuffer := ⟨seqNum, p.unified dest, info.1, info.2.1⟩ :: info.2.2.historyBuffer }

/-- Undo an entry of the history, if it was really a change. -/
def undo (s : RenameStage) (h : RenameHistory) : Option RenameStage :=
  if h.newPhysReg ≠ h.prevPhysReg then
    (s.setEntry p h.archReg h.prevPhysReg).bind fun s => s.addReg p h.newPhysReg
  else some s

/-- The loop of `doSquash` over the history, newest first. -/
def squashLoop (seqNum : Nat) : List RenameHistory → RenameStage → Option RenameStage
  | [], s => some { s with historyBuffer := [] }
  | h :: hs, s =>
    if seqNum < h.instSeqNum then (s.undo p h).bind (squashLoop seqNum hs)
    else some { s with historyBuffer := h :: hs }

def doSquash (s : RenameStage) (seqNum : Nat) : Option RenameStage :=
  squashLoop p seqNum s.historyBuffer s

/-- Free the previous register of an entry that is committed. -/
def retire (s : RenameStage) (h : RenameHistory) : Option RenameStage :=
  if h.newPhysReg ≠ h.prevPhysReg then s.addReg p h.prevPhysReg else some s

/-- The loop of `removeFromHistory` over the history, oldest first. -/
def commitLoop (seqNum : Nat) : List RenameHistory → RenameStage → Option RenameStage
  | [], s => some { s with historyBuffer := [] }
  | h :: hs, s =>
    if h.instSeqNum ≤ seqNum then (s.retire p h).bind (commitLoop seqNum hs)
    else some { s with historyBuffer := (h :: hs).reverse }

def removeFromHistory (s : RenameStage) (seqNum : Nat) : Option RenameStage :=
  commitLoop p seqNum s.historyBuffer.reverse s

/-- The state that the constructors leave: the first registers of each class are mapped in order. -/
def initial : RenameStage where
  map := fun c idx => p.base c + idx
  freeList := fun c => List.range' (p.base c + p.numArch c) (p.numPhys c - p.numArch c)
  historyBuffer := []

end RenameStage

end NvpSim.Cpu
