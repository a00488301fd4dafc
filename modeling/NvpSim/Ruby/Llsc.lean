/-
  Load-linked and store-conditional in Ruby: the lock of a cache line, and what `hitCallback` writes.

  `handleLlsc` tests and clears the lock of the line and tells the processor whether the store-conditional
  succeeded.  That part is right: success means that the line has been locked by this sequencer ever since
  its load-linked (`LockedSince`).  But `hitCallback`, which then updates the data block, takes the result only
  for its trace message: a store-conditional that FAILED writes its data all the same.

  A line that is not in the cache has no lock; `none` is a failed assertion.
-/
import Mathlib.Data.List.Basic
import NvpSim.Lib.Run

namespace NvpSim.Ruby

open NvpSim.Lib

inductive RubyRequestType
  | LD | ST | IFETCH | RMW_Read | Load_Linked | Store_Conditional | Locked_RMW_Read | Locked_RMW_Write
  | RMW_Write | ATOMIC | FLUSH
  deriving DecidableEq

/-- A line of the data cache: `m_locked` and the data block. -/
structure LockedLine (α : Type) where
  locked : Option Nat
  data : Nat → α

/-- What the callbacks of a sequencer see: its version, whether the caches are being warmed up, and the lines
    of its data cache. -/
structure LlscState (α : Type) where
  version : Nat
  warmup : Bool
  lines : Nat → Option (LockedLine α) := fun _ => none

/-- The bytes that a packet has for a line. -/
structure LineBytes (α : Type) where
  offset : Nat
  size : Nat
  bytes : Nat → α

namespace LlscState

variable {α : Type}

def setData (l : LockedLine α) (b : LineBytes α) : LockedLine α :=
  { l with data := fun i => if b.offset ≤ i ∧ i < b.offset + b.size then b.bytes (i - b.offset) else l.data i }

/-- `handleLlsc(address, request)` on the line. -/
def handleLlsc (version : Nat) (type : RubyRequestType) (l : Option (LockedLine α)) :
    Option (Bool × Option (LockedLine α)) :=
  match type with
  | .Store_Conditional => l.map fun x => (x.locked == some version, some { x with locked := none })
  | .Load_Linked => l.map fun x => (true, some { x with locked := some version })
  | _ => some (true, l.map fun x => if x.locked = some version then { x with locked := none } else x)

/-- The types whose packet takes data from the block. -/
def isDataRead : RubyRequestType → Bool
  | .LD | .IFETCH | .RMW_Read | .Locked_RMW_Read | .Load_Linked => true
  | _ => false

/-- The data update of `hitCallback`. -/
def hitCallback (warmup : Bool) (type : RubyRequestType) (b : LineBytes α) (l : Option (LockedLine α)) :
    Option (LockedLine α) :=
  if warmup then l.map (setData · b)
  else if type = .FLUSH then l
  else if isDataRead type then l
  else l.map (setData · b)

/-- `readCallback` for loads and fetches, `writeCallback` for everything else: the result for the
    processor, and the lines after it. -/
def complete (s : LlscState α) (line : Nat) (type : RubyRequestType) (b : LineBytes α) :
    Option (Bool × LlscState α) :=
  (if type = .LD ∨ type = .IFETCH then some (true, s.lines line)
    else handleLlsc s.version type (s.lines line)).map fun (success, l) =>
      (success, { s with lines := Function.update s.lines line (hitCallback s.warmup type b l) })

/-- What happens to the lines: callbacks, fills and evictions, and `invalidateSC`. -/
inductive Act (α : Type)
  | complete (line : Nat) (type : RubyRequestType) (b : LineBytes α)
  | fill (line : Nat) (data : Nat → α)
  | evict (line : Nat)
  | invalidateSC (line : Nat)

/-- One action.  A line is filled without a lock. -/
def act (s : LlscState α) : Act α → Option (LlscState α)
  | .complete line type b => (s.complete line type b).map (·.2)
  | .fill line data => some { s with lines := Function.update s.lines line (some ⟨none, data⟩) }
  | .evict line => some { s with lines := Function.update s.lines line none }
  | .invalidateSC line =>
    some { s with lines := Function.update s.lines line ((s.lines line).map ({ · with locked := none })) }

/-- The action is the completion of a load-linked of the line. -/
def Links (line : Nat) : Act α → Prop
  | .complete l type _ => l = line ∧ type = .Load_Linked
  | _ => False

/-- The action takes the lock of the line away. -/
def Unlocks (line : Nat) : Act α → Prop
  | .complete l type _ => l = line ∧ type ≠ .LD ∧ type ≠ .IFETCH ∧ type ≠ .Load_Linked
  | .fill l _ | .evict l | .invalidateSC l => l = line

/-- **The line has been locked since a load-linked.** -/
def LockedSince (line : Nat) (as : List (Act α)) : Prop :=
  ∃ pre a post, as = pre ++ a :: post ∧ Links line a ∧ ∀ x ∈ post, ¬ Unlocks line x

/-! ## The lock -/

variable {s s' : LlscState α} {line : Nat} {as : List (Act α)} {a : Act α}

/-- The line is there, locked by the sequencer. -/
def Locked (s : LlscState α) (line : Nat) : Prop :=
  ∃ l, s.lines line = some l ∧ l.locked = some s.version

theorem locked_hitCallback {warmup : Bool} {type : RubyRequestType} {b : LineBytes α}
    {l : Option (LockedLine α)} : (hitCallback warmup type b l).map (·.locked) = l.map (·.locked) := by
  unfold hitCallback
  split_ifs <;> simp [setData, Function.comp_def]

theorem locked_iff : Locked s line ↔ (s.lines line).map (·.locked) = some (some s.version) := by
  simp [Locked, Option.map_eq_some_iff]

theorem locked_act (h : s.act a = some s') (hl : Locked s' line) :
    s'.version = s.version ∧ (Links line a ∨ (Locked s line ∧ ¬ Unlocks line a)) := by
  rw [locked_iff] at hl ⊢
  cases a with
  | complete l type b =>
    obtain ⟨⟨ok, s''⟩, hc, rfl⟩ := Option.map_eq_some_iff.mp h
    obtain ⟨⟨ok', l'⟩, hl', heq⟩ := Option.map_eq_some_iff.mp hc
    cases heq
    refine ⟨rfl, ?_⟩
    replace hl : (Function.update s.lines l _ line).map (·.locked) = some (some s.version) := hl
    by_cases hline : line = l
    · subst hline
      rw [Function.update_self, locked_hitCallback] at hl
      by_cases hread : type = .LD ∨ type = .IFETCH
      · rw [if_pos hread] at hl'
        cases hl'
        refine .inr ⟨hl, fun hu => ?_⟩
        exact hread.elim hu.2.1 hu.2.2.1
      · by_cases hll : type = .Load_Linked
        · exact .inl ⟨rfl, hll⟩
        · -- every other type leaves the line without the lock
          exfalso
          cases hx : s.lines line <;> rw [hx] at hl' <;> cases type <;>
            simp_all [handleLlsc] <;> grind
    · rw [Function.update_of_ne hline] at hl
      exact .inr ⟨hl, fun hu => hline hu.1.symm⟩
  | fill l data | evict l | invalidateSC l =>
    cases h
    refine ⟨rfl, .inr ?_⟩
    replace hl : (Function.update s.lines l _ line).map (·.locked) = some (some s.version) := hl
    by_cases hline : line = l
    · subst hline
      simp [Option.map_eq_some_iff] at hl
    · rw [Function.update_of_ne hline] at hl
      exact ⟨hl, fun hu => hline hu.symm⟩

theorem lockedSince_of_run {version : Nat} {warmup : Bool}
    (h : Run (stepOf act) { version := version, warmup := warmup } as s) :
    ∀ line, Locked s line → LockedSince line as := by
  refine Run.inv_hist (P := fun as s => ∀ line, Locked s line → LockedSince line as) ?_ h ?_
  · intro as s a s' ih hs line hl
    obtain ⟨-, hlinks | ⟨hlocked, hkeep⟩⟩ := locked_act hs hl
    · exact ⟨as, a, [], rfl, hlinks, fun _ hx => (nomatch hx)⟩
    · obtain ⟨pre, x, post, rfl, hx, hpost⟩ := ih line hlocked
      refine ⟨pre, x, post ++ [a], by simp, hx, fun y hy => ?_⟩
      rcases List.mem_append.mp hy with hy | hy
      · exact hpost y hy
      · rwa [List.mem_singleton.mp hy]
  · rintro line ⟨l, hl, -⟩
    exact (nomatch hl)

/-- **A store-conditional** reports success only if the line has been locked since its load-linked; and one
    that reports failure leaves the data block unchanged if and only if its bytes are there already. -/
theorem store_conditional_effect {version : Nat} {warmup ok : Bool} {b : LineBytes α}
    (h : Run (stepOf act) { version := version, warmup := warmup } as s)
    (hsc : s.complete line .Store_Conditional b = some (ok, s')) : (ok = true → LockedSince line as) ∧
    (ok = false → ((s'.lines line).map (·.data) = (s.lines line).map (·.data) ↔
      ∀ l, s.lines line = some l → ∀ i < b.size, l.data (b.offset + i) = b.bytes i)) := by
  obtain ⟨⟨ok', l'⟩, hl', heq⟩ := Option.map_eq_some_iff.mp hsc
  obtain ⟨l, hl, hx⟩ := Option.map_eq_some_iff.mp hl'
  cases hx
  cases heq
  refine ⟨fun hok => lockedSince_of_run h line ⟨l, hl, by simpa using hok⟩, fun _ => ?_⟩
  show (Function.update s.lines line _ line).map (·.data) = _ ↔ _
  have hwrite : hitCallback s.warmup .Store_Conditional b (some { l with locked := none }) =
      some (setData { l with locked := none } b) := by
    unfold hitCallback
    split_ifs <;> first | rfl | contradiction
  rw [Function.update_self, hwrite, hl]
  simp only [Option.map_some, Option.some.injEq, forall_eq', setData]
  constructor
  · intro hsame i hi
    have hat := congrFun hsame (b.offset + i)
    rw [if_pos (by omega), Nat.add_sub_cancel_left] at hat
    exact hat.symm
  · intro hsame
    funext i
    split_ifs with hin
    · rw [← hsame (i - b.offset) (by omega), Nat.add_sub_cancel' hin.1]
    · rfl

/-- One byte, 9, at the start of a line. -/
def nine : LineBytes Nat := ⟨0, 1, fun _ => 9⟩

/-- Without a load-linked before it, a store-conditional fails, and its byte is in the block. -/
theorem failed_store_conditional_writes : ∃ s s', exec act { version := 0, warmup := false }
    [.fill 64 fun _ => 0] = some s ∧ s.complete 64 .Store_Conditional nine = some (false, s') ∧
    (s'.lines 64).map (·.data 0) = some 9 ∧ (s.lines 64).map (·.data 0) = some 0 :=
  ⟨_, _, rfl, rfl, rfl, rfl⟩

/-- After a load-linked it succeeds. -/
theorem store_conditional_effect_linked : ∃ s s', Run (stepOf act) { version := 0, warmup := false }
    [.fill 64 fun _ => 0, .complete 64 .Load_Linked nine] s ∧
    s.complete 64 .Store_Conditional nine = some (true, s') ∧
    LockedSince 64 [.fill 64 fun _ => 0, .complete 64 .Load_Linked nine] := by
  have hrun : Run (stepOf act) { version := 0, warmup := false }
    [.fill 64 fun _ => 0, .complete 64 .Load_Linked nine] _ := exec_iff.mp rfl
  exact ⟨_, _, hrun, rfl, (store_conditional_effect (b := nine) hrun rfl).1 rfl⟩

end LlscState

end NvpSim.Ruby
