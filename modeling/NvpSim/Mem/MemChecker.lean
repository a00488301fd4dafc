/-
  `MemChecker`: checks that the reads of a byte could have returned what they did.

  The `ByteTracker` of `mem/mem_checker.{hh,cc}`, for one byte; `none` is a failed assertion.  The tracker
  keeps the reads that are outstanding, the reads that are over (`readObservations`), and the writes in
  clusters: a cluster is closed when no write of it is outstanding.

  The two lists are kept NEWEST FIRST; an iterator found from the back is given by the elements down to it
  (`downTo`).  A cluster's writes are in a hash map, which is iterated in some order `iter`, and a call that
  reports a tick happens at some `curTick()`, given by `now`.
-/
import NvpSim.Lib.Run
import NvpSim.Sim.Event

namespace NvpSim.Mem

open NvpSim.Sim

/-- A byte of data. -/
abbrev Data := BitVec 8

/-- `TICK_INITIAL`, `TICK_FUTURE`. -/
def tickInitial : Nat := 0
def tickFuture : Nat := maxTick

structure Transaction where
  serial : Nat
  start : Nat
  complete : Nat
  data : Data
  deriving DecidableEq, Repr

/-! ## Clusters of writes -/

structure WriteCluster where
  start : Nat
  complete : Nat
  writes : List Transaction
  completeMax : Nat
  numIncomplete : Nat

namespace WriteCluster

/-- `WriteCluster()`. -/
def fresh : WriteCluster := ⟨tickFuture, tickFuture, [], tickInitial, 0⟩

def isComplete (c : WriteCluster) : Bool := c.complete != tickFuture

/-- `--numIncomplete`, of type `size_t`: zero wraps around. -/
def decrement (n : Nat) : Nat := if n = 0 then 2 ^ 64 - 1 else n - 1

def startWrite (c : WriteCluster) (serial start : Nat) (data : Data) : Option WriteCluster :=
  if c.isComplete then none
  else
    let clusterStart := if c.start = tickFuture then start else c.start
    if start < clusterStart then none
    else if c.complete ≠ tickFuture ∧ c.complete ≤ start then none
    else some { c with
      start := clusterStart, complete := tickFuture, numIncomplete := c.numIncomplete + 1,
      writes := if c.writes.any (·.serial == serial) then c.writes
        else c.writes ++ [⟨serial, start, tickFuture, data⟩] }

def completeWrite (c : WriteCluster) (serial complete : Nat) : Option WriteCluster :=
  match c.writes.find? (·.serial == serial) with
  | none => some c
  | some w =>
    if w.complete ≠ tickFuture then none
    else
      let completeMax := if c.completeMax < complete then complete else c.completeMax
      let numIncomplete := decrement c.numIncomplete
      some { c with
        writes := c.writes.map fun w => if w.serial = serial then { w with complete := complete } else w
        completeMax := completeMax
        numIncomplete := numIncomplete
        complete := if numIncomplete = 0 then completeMax else c.complete }

def abortWrite (c : WriteCluster) (serial : Nat) : WriteCluster :=
  if c.writes.any (·.serial == serial) then
    let writes := c.writes.filter fun w => w.serial ≠ serial
    let numIncomplete := decrement c.numIncomplete
    { c with
      writes := writes
      numIncomplete := numIncomplete
      complete := if numIncomplete = 0 ∧ writes ≠ [] then c.completeMax else c.complete }
  else c

end WriteCluster

/-! ## The tracker of a byte -/

/-- The elements from the back down to the last one that completed before a tick, or all of them. -/
def downTo {T : Type} (complete : T → Nat) (before : Nat) : List T → List T
  | [] => []
  | x :: older => if complete x < before then [x] else x :: downTo complete before older

/-- `lastCompletedTransaction(l, before)`: the element found. -/
def lastCompletedTransaction {T : Type} (complete : T → Nat) (l : List T) (before : Nat) : Option T :=
  (downTo complete before l).getLast?

structure ByteTracker where
  outstandingReads : List Transaction
  readObservations : List Transaction
  writeClusters : List WriteCluster
  lastExpectedData : List Data

/-- What the scan of `inExpectedData` has found. -/
structure Scan where
  lastObsValid : Bool
  wcOverlap : Bool
  expected : List Data

namespace ByteTracker

/-- `ByteTracker()`: with the initial transaction. -/
def init : ByteTracker := ⟨[], [⟨0, tickInitial, tickInitial, 0⟩], [], []⟩

/-- `outstandingReads.insert(…)`, a map ordered by serial. -/
def insertRead (r : Transaction) : List Transaction → List Transaction
  | [] => [r]
  | x :: rest => if x.serial < r.serial then x :: insertRead r rest
    else if x.serial = r.serial then x :: rest
    else r :: x :: rest

def startRead (t : ByteTracker) (serial start : Nat) : ByteTracker :=
  { t with outstandingReads := insertRead ⟨serial, start, tickFuture, 0⟩ t.outstandingReads }

/-- The body of the inner loop of `inExpectedData`; an error is the return with a match. -/
def scanWrite (lastObs : Transaction) (start : Nat) (data : Data) (s : Scan) (w : Transaction) :
    Except (List Data) Scan :=
  if w.complete < lastObs.start then .ok s
  else if w.data = data then .error s.expected
  else if start < w.complete then .ok { s with expected := s.expected ++ [w.data] }
  else .ok {
    lastObsValid := if lastObs.complete < w.start then false else s.lastObsValid
    wcOverlap := false
    expected := s.expected ++ [w.data] }

/-- The inner loop of `inExpectedData`. -/
def scanWrites (lastObs : Transaction) (start : Nat) (data : Data) : Scan → List Transaction → Except (List Data) Scan
  | s, [] => .ok s
  | s, w :: ws =>
    match scanWrite lastObs start data s w with
    | .error expected => .error expected
    | .ok s => scanWrites lastObs start data s ws

/-- The outer loop of `inExpectedData`. -/
def scanClusters (iter : List Transaction → List Transaction) (lastObs : Transaction) (start : Nat)
    (data : Data) : Scan → List WriteCluster → Except (List Data) Scan
  | s, [] => .ok s
  | s, c :: older =>
    if s.wcOverlap then
      match scanWrites lastObs start data s (iter c.writes) with
      | .error expected => .error expected
      | .ok s => scanClusters iter lastObs start data s older
    else .ok s

/-- `inExpectedData` after its loops: other sources of confirmation. -/
def otherSources (t : ByteTracker) (lastObs : Transaction) (start complete : Nat) (data : Data)
    (s : Scan) : Option (Bool × List Data) :=
  if s.lastObsValid then
    if start < lastObs.complete then none
    else if lastObs.data = data then some (true, s.expected)
    else some (false, s.expected ++ [lastObs.data])
  else
    match t.writeClusters.getLast?, t.writeClusters.head?, s.wcOverlap with
    | some first, some last, true =>
      -- all clusters overlap the read: anything goes
      if first.start < complete ∧ start < last.complete then some (true, s.expected) else none
    | _, _, _ =>
      if s.expected.isEmpty then
        if lastObs.complete = tickInitial then some (true, s.expected) else none
      else some (false, s.expected)

/-- `inExpectedData(start, complete, data)`, with the new `_lastExpectedData`. -/
def inExpectedData (iter : List Transaction → List Transaction) (t : ByteTracker)
    (start complete : Nat) (data : Data) : Option (Bool × List Data) :=
  (lastCompletedTransaction (·.complete) t.readObservations start).bind fun lastObs =>
    match scanClusters iter lastObs start data ⟨lastObs.complete != tickInitial, true, []⟩ t.writeClusters with
    | .error expected => some (true, expected)
    | .ok s => t.otherSources lastObs start complete data s

/-- The tick of the first outstanding read, or the current one. -/
def pruneTick (t : ByteTracker) (curTick : Nat) : Nat :=
  match t.outstandingReads with
  | [] => curTick
  | r :: _ => r.start

def pruneTransactions (t : ByteTracker) (curTick : Nat) : Option ByteTracker :=
  let before := t.pruneTick curTick
  if t.readObservations.isEmpty then none
  else some { t with
    readObservations := downTo (·.complete) before t.readObservations
    writeClusters := downTo (·.complete) before t.writeClusters }

def completeRead (iter : List Transaction → List Transaction) (t : ByteTracker) (curTick : Nat)
    (serial complete : Nat) (data : Data) : Option (ByteTracker × Bool) :=
  match t.outstandingReads.find? (·.serial == serial) with
  | none => some (t, true)
  | some r =>
    let t := { t with outstandingReads := t.outstandingReads.filter fun r => r.serial ≠ serial }
    (t.inExpectedData iter r.start complete data).bind fun (result, expected) =>
      ({ t with
          lastExpectedData := expected
          readObservations := ⟨serial, r.start, complete, data⟩ :: t.readObservations
        }.pruneTransactions curTick).map (·, result)

/-- `getIncompleteWriteCluster()`, and what is done to the cluster. -/
def updateCluster (t : ByteTracker) (f : WriteCluster → Option WriteCluster) : Option ByteTracker :=
  match t.writeClusters with
  | [] => (f .fresh).map fun c => { t with writeClusters := [c] }
  | back :: older =>
    if back.isComplete then (f .fresh).map fun c => { t with writeClusters := c :: back :: older }
    else (f back).map fun c => { t with writeClusters := c :: older }

def startWrite (t : ByteTracker) (serial start : Nat) (data : Data) : Option ByteTracker :=
  t.updateCluster (·.startWrite serial start data)

def completeWrite (t : ByteTracker) (curTick serial complete : Nat) : Option ByteTracker :=
  (t.updateCluster (·.completeWrite serial complete)).bind (·.pruneTransactions curTick)

def abortWrite (t : ByteTracker) (serial : Nat) : Option ByteTracker :=
  t.updateCluster fun c => some (c.abortWrite serial)

end ByteTracker

/-! ## Histories -/

/-- A call on the tracker, and when it happens. -/
inductive MemEvent where
  | startRead (serial tick : Nat)
  | completeRead (serial tick : Nat) (data : Data)
  | startWrite (serial tick : Nat) (data : Data)
  | completeWrite (serial tick : Nat)
  | abortWrite (serial tick : Nat)
  deriving DecidableEq, Repr

namespace MemEvent

def serial : MemEvent → Nat
  | startRead s _ | completeRead s _ _ | startWrite s _ _ | completeWrite s _ | abortWrite s _ => s

def tick : MemEvent → Nat
  | startRead _ t | completeRead _ t _ | startWrite _ t _ | completeWrite _ t | abortWrite _ t => t

end MemEvent

/-- The tracker, and what its `completeRead` calls returned. -/
structure CheckRun where
  tracker : ByteTracker
  results : List Bool

namespace CheckRun

def start : CheckRun := ⟨.init, []⟩

/-- One call. -/
def step (iter : List Transaction → List Transaction) (now : Nat → Nat) (s : CheckRun) : MemEvent → Option CheckRun
  | .startRead serial tick => some { s with tracker := s.tracker.startRead serial tick }
  | .completeRead serial tick data =>
    (s.tracker.completeRead iter (now tick) serial tick data).map fun (t, result) =>
      ⟨t, s.results ++ [result]⟩
  | .startWrite serial tick data =>
    (s.tracker.startWrite serial tick data).map fun t => { s with tracker := t }
  | .completeWrite serial tick =>
    (s.tracker.completeWrite (now tick) serial tick).map fun t => { s with tracker := t }
  | .abortWrite serial _ => (s.tracker.abortWrite serial).map fun t => { s with tracker := t }

end CheckRun

end NvpSim.Mem
