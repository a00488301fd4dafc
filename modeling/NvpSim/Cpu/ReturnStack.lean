/-
  The return address stack (`cpu/pred/ras.{hh,cc}`) and how a squash restores it (`cpu/pred/bpred_unit.cc`).

  Predictions are undone from their records, the newest first.  `restore` puts back the top of the stack but not
  the number of used entries, so that a stack with an outstanding call can be reported empty.

  `Same` compares two stacks by their top, the number of used entries and the entries that are live; what lies
  above them does not matter.  A harmless prediction and its undoing leave the same stack (`undo_predict`), and so
  does a squash, which undoes the records of a whole run.
-/
import Mathlib.Logic.Function.Basic
import Mathlib.Tactic.SplitIfs
import NvpSim.Lib.Run

namespace NvpSim.Cpu.BPred

open NvpSim.Lib Function

/-- A stack of `n` entries. -/
structure ReturnAddrStack (PC : Type) (n : Nat) where
  addrStack : Nat → PC
  usedEntries : Nat
  tos : Fin n

variable {PC : Type} {n : Nat}

namespace ReturnAddrStack

def incrTos (tos : Fin n) : Fin n := ⟨if tos.1 + 1 = n then 0 else tos.1 + 1, by split <;> omega⟩

def decrTos (tos : Fin n) : Fin n := ⟨if tos.1 = 0 then n - 1 else tos.1 - 1, by split <;> omega⟩

def push (r : ReturnAddrStack PC n) (returnAddr : PC) : ReturnAddrStack PC n where
  addrStack := update r.addrStack (incrTos r.tos) returnAddr
  usedEntries := if r.usedEntries ≠ n then r.usedEntries + 1 else r.usedEntries
  tos := incrTos r.tos

def pop (r : ReturnAddrStack PC n) : ReturnAddrStack PC n :=
  { r with usedEntries := r.usedEntries - 1, tos := decrTos r.tos }

def restore (r : ReturnAddrStack PC n) (topEntryIdx : Fin n) (restored : PC) : ReturnAddrStack PC n :=
  { r with addrStack := update r.addrStack topEntryIdx restored, tos := topEntryIdx }

/-- The index that is `k` entries below the top. -/
def below (tos : Fin n) (k : Nat) : Nat := if k ≤ tos.1 then tos.1 - k else tos.1 + n - k

/-- The same top index, number of used entries and live entries. -/
def Same (r r' : ReturnAddrStack PC n) : Prop := r.tos = r'.tos ∧ r.usedEntries = r'.usedEntries ∧
  ∀ k < r'.usedEntries, r.addrStack (below r'.tos k) = r'.addrStack (below r'.tos k)

end ReturnAddrStack

open ReturnAddrStack

/-- A record; `usedRAS` has the index and the target. -/
structure PredictorHistory (PC : Type) (n : Nat) where
  seqNum : Nat
  usedRAS : Option (Fin n × PC)
  wasCall : Bool
  pushedRAS : Bool

/-- A branch, with what the direction predictor and the BTB say of it. -/
structure Branch (PC : Type) where
  seqNum : Nat
  pc : PC
  isUncondCtrl : Bool
  isCall : Bool
  isReturn : Bool
  lookup : Bool
  btbValid : Bool

/-- `BPredUnit::predict`: the stack, and the new record. -/
def predict (r : ReturnAddrStack PC n) (b : Branch PC) : ReturnAddrStack PC n × PredictorHistory PC n :=
  if b.isUncondCtrl || b.lookup then
    if b.isReturn then (r.pop, ⟨b.seqNum, some (r.tos, r.addrStack r.tos), false, false⟩)
    else if b.isCall then
      -- a conditional call without a target is not taken after all
      if b.btbValid || b.isUncondCtrl then (r.push b.pc, ⟨b.seqNum, none, true, true⟩)
      else ((r.push b.pc).pop, ⟨b.seqNum, none, true, false⟩)
    else (r, ⟨b.seqNum, none, false, false⟩)
  else (r, ⟨b.seqNum, none, false, false⟩)

/-- What a squash does for one record. -/
def PredictorHistory.undo (h : PredictorHistory PC n) (r : ReturnAddrStack PC n) : ReturnAddrStack PC n :=
  match h.usedRAS with
  | some (rasIndex, rasTarget) => r.restore rasIndex rasTarget
  | none => if h.wasCall && h.pushedRAS then r.pop else r

/-- The stack of a thread and its history, the newest record first. -/
abbrev BPredUnit (PC : Type) (n : Nat) := ReturnAddrStack PC n × List (PredictorHistory PC n)

/-- `BPredUnit::squash` without a correction. -/
def squash (squashedSn : Nat) (r : ReturnAddrStack PC n) : List (PredictorHistory PC n) → BPredUnit PC n
  | [] => (r, [])
  | h :: hist => if squashedSn < h.seqNum then squash squashedSn (h.undo r) hist else (r, h :: hist)

def step (u : BPredUnit PC n) (b : Branch PC) : Option (BPredUnit PC n) :=
  some ((predict u.1 b).1, (predict u.1 b).2 :: u.2)

/-- The prediction takes no used entry off the stack, and puts none on a full stack. -/
def Harmless (r : ReturnAddrStack PC n) (b : Branch PC) : Prop :=
  b.isUncondCtrl || b.lookup → if b.isReturn then r.usedEntries = 0 else b.isCall → r.usedEntries < n

variable {r r' r'' : ReturnAddrStack PC n}

theorem ReturnAddrStack.Same.trans (h : Same r r') (h' : Same r' r'') : Same r r'' := by
  obtain ⟨htos, hused, hlive⟩ := h
  obtain ⟨htos', hused', hlive'⟩ := h'
  rw [htos', hused'] at hlive
  exact ⟨htos.trans htos', hused.trans hused', fun k hk => (hlive k hk).trans (hlive' k hk)⟩

/-- **A pop undoes a push** on a stack that is not full. -/
theorem ReturnAddrStack.Same.pop {addr : PC} (hused : r.usedEntries < n) (h : Same r' (r.push addr)) :
    Same r'.pop r := by
  obtain ⟨htos, hcount, hlive⟩ := h
  have hpush : (r.push addr).usedEntries = r.usedEntries + 1 := if_pos (Nat.ne_of_lt hused)
  rw [hpush] at hcount hlive
  refine ⟨?_, ?_, fun k hk => ?_⟩
  · show decrTos r'.tos = r.tos
    rw [htos]
    simp only [push, decrTos, incrTos, Fin.ext_iff]
    grind
  · show r'.usedEntries - 1 = r.usedEntries
    omega
  · have hentry : below (r.push addr).tos (k + 1) = below r.tos k ∧ below r.tos k ≠ incrTos r.tos := by
      simp only [push, below, incrTos]
      grind
    have hsame := hlive (k + 1) (by omega)
    rw [hentry.1] at hsame
    exact hsame.trans (update_of_ne hentry.2 _ _)

/-- **A prediction is undone.** -/
theorem undo_predict {b : Branch PC} (hb : Harmless r b) (h : Same r' (predict r b).1) :
    Same ((predict r b).2.undo r') r := by
  unfold predict at h ⊢
  split_ifs at h ⊢ with htaken hret hcall hkept
  · have hzero := hb htaken
    rw [if_pos hret] at hzero
    obtain ⟨-, hused, -⟩ := h
    refine ⟨rfl, hused.trans ?_, fun k hk => by omega⟩
    show r.usedEntries - 1 = r.usedEntries
    omega
  · have hroom := hb htaken
    rw [if_neg hret] at hroom
    exact h.pop (hroom hcall)
  · have hroom := hb htaken
    rw [if_neg hret] at hroom
    exact h.trans (Same.pop (hroom hcall) ⟨rfl, rfl, fun _ _ => rfl⟩)
  all_goals exact h

/-- **A squash restores the stack**, if no prediction that is squashed took a used entry off it or put one on it
    when it was full. -/
theorem squash_restores_stack {sn : Nat} {u u' : BPredUnit PC n} {bs : List (Branch PC)}
    (hold : ∀ h ∈ u.2, h.seqNum ≤ sn)
    (hrun : Run (Guarded (stepOf step) fun u b => sn < b.seqNum ∧ Harmless u.1 b) u bs u') :
    (squash sn u'.1 u'.2).1.Same u.1 ∧ (squash sn u'.1 u'.2).2 = u.2 := by
  -- so does a squash that starts with a stack that is the same
  refine hrun.inv (P := fun u' => ∀ r, r.Same u'.1 → (squash sn r u'.2).1.Same u.1 ∧ (squash sn r u'.2).2 = u.2)
    ?_ ?_ _ ⟨rfl, rfl, fun _ _ => rfl⟩
  · rintro v b v' ih ⟨hs, hlt, hb⟩ r hr
    cases hs
    have hnum : (predict v.1 b).2.seqNum = b.seqNum := by
      unfold predict
      grind
    show (squash sn r ((predict v.1 b).2 :: v.2)).1.Same u.1 ∧ _
    rw [squash, hnum, if_pos hlt]
    exact ih _ (undo_predict hb hr)
  · intro r hr
    have hnone : squash sn r u.2 = (r, u.2) := by
      cases hhist : u.2 with
      | nil => rfl
      | cons h hist => exact if_neg (Nat.not_lt.mpr (hold h (by simp [hhist])))
    rw [hnone]
    exact ⟨hr, rfl⟩

/-- Two calls put two entries on the stack, and the squash takes them off. -/
theorem squash_restores_stack_call : ∃ u' : BPredUnit Nat 16,
    Run (Guarded (stepOf step) fun u b => 0 < b.seqNum ∧ Harmless u.1 b) (⟨fun _ => 0, 0, 0⟩, [])
      [⟨1, 100, true, true, false, false, true⟩, ⟨2, 200, true, true, false, false, true⟩] u' ∧
    u'.1.usedEntries = 2 ∧ (squash 0 u'.1 u'.2).1.Same ⟨fun _ => 0, 0, 0⟩ ∧ (squash 0 u'.1 u'.2).2 = [] := by
  have hrun : Run (Guarded (stepOf step) fun u b => 0 < b.seqNum ∧ Harmless u.1 b)
      ((⟨fun _ => 0, 0, 0⟩, []) : BPredUnit Nat 16)
      [⟨1, 100, true, true, false, false, true⟩, ⟨2, 200, true, true, false, false, true⟩] _ :=
    .cons ⟨rfl, by simp [Harmless]⟩ (.cons ⟨rfl, by simp [Harmless, predict, ReturnAddrStack.push]⟩ .nil)
  exact ⟨_, hrun, rfl, squash_restores_stack (List.forall_mem_nil _) hrun⟩

/-- **A return that is squashed**: the call before it is outstanding, and no entry is used. -/
theorem squash_of_return : (step ((⟨fun _ => 0, 0, 0⟩, []) : BPredUnit Nat 16)
    ⟨1, 100, true, true, false, false, true⟩).bind (fun u => (step u ⟨2, 200, true, false, true, false, false⟩).map
      fun u' => (u.1.usedEntries, (squash 1 u'.1 u'.2).1.usedEntries)) = some (1, 0) :=
  rfl

end NvpSim.Cpu.BPred
