/-
  The event queue (`sim/eventq.{hh,cc}`, `sim/eventq_impl.hh`), single-threaded.

  Events with the same `(when, priority)` form a BIN, a stack linked by `nextInBin`; the tops of the bins are
  linked by `nextBin` in increasing order.  The `nextBin` of an event that another one was stacked upon goes
  stale and is repaired when the event becomes a top again.

  The event objects are `Fin n`, for any `n`; their two pointer members are the functions `nextBin` and
  `nextInBin`, their other members the record `obj`.  The two `while` loops get `n` turns, more than any chain
  of distinct events needs; a loop that runs out, a failed `assert` and a `panic` are all `none`.

  The asynchronous queue of other threads, the serialisation and the trace texts are left out.
-/
import NvpSim.Sim.Event
import Mathlib.Data.Prod.Lex

namespace NvpSim.Sim

/-- The members of an `Event` other than its two pointers. -/
structure EventObj where
  when : Tick
  priority : Int
  squashed : Bool
  scheduled : Bool
  autoDelete : Bool
  isExitEvent : Bool
  isMainQueue : Bool
  initialized : Bool
  /-- `queue`, the identity of the queue the event belongs to. -/
  queue : Option Nat
  deriving DecidableEq, Repr

namespace EventObj

/-- The constructor `Event(p, f)`: `f` may set any publicly writable flag. -/
def new (priority : Int) (squashed autoDelete isExitEvent : Bool) : EventObj where
  when := 0
  priority := priority
  squashed := squashed
  scheduled := false
  autoDelete := autoDelete
  isExitEvent := isExitEvent
  isMainQueue := false
  initialized := true
  queue := none

/-- `operator<` on events. -/
def lt (l r : EventObj) : Prop := l.when < r.when ∨ (l.when = r.when ∧ l.priority < r.priority)

/-- `operator<=` on events. -/
def le (l r : EventObj) : Prop := l.when < r.when ∨ (l.when = r.when ∧ l.priority ≤ r.priority)

/-- `operator==` on events. -/
def eq (l r : EventObj) : Prop := l.when = r.when ∧ l.priority = r.priority

/-- What the destructor leaves: `flags = 0`. -/
def deleted (o : EventObj) : EventObj :=
  { o with
    squashed := false, scheduled := false, autoDelete := false, isExitEvent := false
    isMainQueue := false, initialized := false }

instance (l r : EventObj) : Decidable (lt l r) := inferInstanceAs (Decidable (_ ∨ _))
instance (l r : EventObj) : Decidable (le l r) := inferInstanceAs (Decidable (_ ∨ _))
instance (l r : EventObj) : Decidable (eq l r) := inferInstanceAs (Decidable (_ ∧ _))

end EventObj

/-- An `EventQueue` together with the event objects it links. -/
structure EventQueue (n : Nat) where
  self : Nat
  head : Option (Fin n)
  curTick : Tick
  nextBin : Fin n → Option (Fin n)
  nextInBin : Fin n → Option (Fin n)
  obj : Fin n → EventObj

namespace EventQueue

variable {n : Nat}

/-! ## `insert` -/

/-- `Event::insertBefore(event, curr)`: the event becomes the top of a new bin before `curr`, or
    the new top of the bin of `curr`. -/
def insertBefore (q : EventQueue n) (event : Fin n) (curr : Option (Fin n)) : EventQueue n :=
  match curr with
  | none =>
    { q with
      nextBin := Function.update q.nextBin event none
      nextInBin := Function.update q.nextInBin event none }
  | some c =>
    if (q.obj event).lt (q.obj c) then
      { q with
        nextBin := Function.update q.nextBin event (some c)
        nextInBin := Function.update q.nextInBin event none }
    else
      { q with
        nextBin := Function.update q.nextBin event (q.nextBin c)
        nextInBin := Function.update q.nextInBin event (some c) }

/-- The loop of `insert` and `remove` along the bins:
    `while (curr && *curr < *event) { prev = curr; curr = curr->nextBin; }`. -/
def seek (q : EventQueue n) (event : Fin n) : Nat → Fin n → Option (Fin n) → Option (Fin n × Option (Fin n))
  | 0, _, _ => none
  | _ + 1, prev, none => some (prev, none)
  | turns + 1, prev, some c =>
    if (q.obj c).lt (q.obj event) then seek q event turns c (q.nextBin c)
    else some (prev, some c)

def insert (q : EventQueue n) (event : Fin n) : Option (EventQueue n) :=
  match q.head with
  | none => some { q.insertBefore event none with head := some event }
  | some h =>
    -- deal with the head case
    if (q.obj event).le (q.obj h) then
      some { q.insertBefore event (some h) with head := some event }
    else do
      let (prev, curr) ← q.seek event n h (q.nextBin h)
      let q := q.insertBefore event curr
      some { q with nextBin := Function.update q.nextBin prev (some event) }

/-! ## `remove` -/

/-- The loop of `removeItem` down a bin: the event whose `nextInBin` is `event`.
    `while (event != next) { if (!next) panic; curr = next; next = next->nextInBin; }` -/
def findInBin (q : EventQueue n) (event : Fin n) : Nat → Fin n → Option (Fin n) → Option (Fin n)
  | 0, _, _ => none
  | _ + 1, _, none => none
  | turns + 1, curr, some next =>
    if event = next then some curr else findInBin q event turns next (q.nextInBin next)

/-- `Event::removeItem(event, top)`: the queue, and the pointer that replaces `top`. -/
def removeItem (q : EventQueue n) (event top : Fin n) : Option (EventQueue n × Option (Fin n)) :=
  if event = top then
    match q.nextInBin top with
    | none => some (q, q.nextBin top)
    -- the new top takes over the next bin pointer
    | some next => some ({ q with nextBin := Function.update q.nextBin next (q.nextBin top) }, some next)
  else do
    let curr ← q.findInBin event n top (q.nextInBin top)
    some ({ q with nextInBin := Function.update q.nextInBin curr (q.nextInBin event) }, some top)

def remove (q : EventQueue n) (event : Fin n) : Option (EventQueue n) :=
  match q.head with
  | none => none
  | some h =>
    if (q.obj event).queue ≠ some q.self then none
    -- an event on the head's bin
    else if (q.obj h).eq (q.obj event) then do
      let (q, top) ← q.removeItem event h
      some { q with head := top }
    else do
      let (prev, curr) ← q.seek event n h (q.nextBin h)
      match curr with
      | none => none
      | some c =>
        if (q.obj c).eq (q.obj event) then do
          let (q, top) ← q.removeItem event c
          some { q with nextBin := Function.update q.nextBin prev top }
        else none

/-! ## `schedule`, `deschedule`, `reschedule`, `squash` -/

/-- Assign the members of one event. -/
def setObj (q : EventQueue n) (event : Fin n) (o : EventObj) : EventQueue n :=
  { q with obj := Function.update q.obj event o }

/-- `event->setWhen(when, this)`. -/
def setWhen (q : EventQueue n) (event : Fin n) (when : Tick) : EventQueue n :=
  q.setObj event { q.obj event with when := when, queue := some q.self }

/-- `delete event`: the destructor asserts that the event is not scheduled and clears the flags. -/
def delete (q : EventQueue n) (event : Fin n) : Option (EventQueue n) :=
  if (q.obj event).scheduled then none else some (q.setObj event (q.obj event).deleted)

def schedule (q : EventQueue n) (event : Fin n) (when : Tick) : Option (EventQueue n) :=
  if q.curTick ≤ when ∧ (q.obj event).scheduled = false ∧ (q.obj event).initialized = true then do
    let q ← (q.setWhen event when).insert event
    some (q.setObj event { q.obj event with scheduled := true })
  else none

def deschedule (q : EventQueue n) (event : Fin n) : Option (EventQueue n) :=
  if (q.obj event).scheduled = true ∧ (q.obj event).initialized = true then do
    let q ← q.remove event
    let q := q.setObj event { q.obj event with squashed := false, scheduled := false }
    if (q.obj event).autoDelete then q.delete event else some q
  else none

/-- `if (event->scheduled()) remove(event);` -/
def removeIfScheduled (q : EventQueue n) (event : Fin n) : Option (EventQueue n) :=
  if (q.obj event).scheduled then q.remove event else some q

def reschedule (q : EventQueue n) (event : Fin n) (when : Tick) (always : Bool) : Option (EventQueue n) :=
  if q.curTick ≤ when ∧ (always = true ∨ (q.obj event).scheduled = true) ∧ (q.obj event).initialized = true then do
    let q ← q.removeIfScheduled event
    let q ← (q.setWhen event when).insert event
    some (q.setObj event { q.obj event with squashed := false, scheduled := true })
  else none

/-- `event->squash()`. -/
def squash (q : EventQueue n) (event : Fin n) : EventQueue n :=
  q.setObj event { q.obj event with squashed := true }

/-! ## What a reader of the queue sees -/

/-- Walk a chain of at most `turns` cells. -/
def walk (next : Fin n → Option (Fin n)) : Nat → Option (Fin n) → List (Fin n)
  | 0, _ => []
  | _ + 1, none => []
  | turns + 1, some e => e :: walk next turns (next e)

/-- The traversal of `EventQueue::dump`: the bins in order, each from its top down. -/
def contents (q : EventQueue n) : List (Fin n) :=
  (walk q.nextBin n q.head).flatMap (fun top => top :: walk q.nextInBin n (q.nextInBin top))

/-! ## The order of the events -/

/-- What an event is ordered by. -/
def key (q : EventQueue n) (e : Fin n) : Tick ×ₗ Int := toLex ((q.obj e).when, (q.obj e).priority)

variable (q : EventQueue n) (a b : Fin n)

theorem lt_iff : (q.obj a).lt (q.obj b) ↔ q.key a < q.key b := by
  rw [key, key, Prod.Lex.toLex_lt_toLex]; rfl

theorem le_iff : (q.obj a).le (q.obj b) ↔ q.key a ≤ q.key b := by
  rw [key, key, Prod.Lex.toLex_le_toLex]; rfl

theorem eq_iff : (q.obj a).eq (q.obj b) ↔ q.key a = q.key b := by
  rw [key, key, toLex_inj, Prod.mk.injEq]; rfl

end EventQueue
end NvpSim.Sim
