/-
  Who has the block: the MI_example protocol without its messages.

  A cache has a ROLE.  It may hold the block, or be about to receive it (`token`); it may have been told to give
  it to another (`gives`), or wait for one that was told (`waits`); it is the owner for the directory
  (`current`), or writes the block back.  The directory is at `Home`.
-/
import Mathlib.Tactic.Common

namespace NvpSim.Ruby.Mi

open Function

/-- What a cache is in the eyes of the others. -/
structure Role where
  idle : Bool
  current : Bool
  token : Bool
  gives : Option Nat
  waits : Bool
  fetches : Bool
  writes : Bool
  recalled : Bool
  yielded : Bool
  deriving DecidableEq, Repr

namespace Role

/-- A cache that has something on its way that concerns nobody else. -/
def busy : Role := ⟨false, false, false, none, false, false, false, false, false⟩

/-- A cache without the block. -/
def away : Role := { busy with idle := true }

end Role

/-- Where the block is, for the directory. -/
inductive Home where
  | free
  | fetching (o : Nat)
  | owned (o : Nat)
  | storing (i : Nat)
  | recalling (o : Nat)
  | recalled (i : Nat)
  deriving DecidableEq, Repr

namespace Home

/-- The cache that the directory takes for the owner. -/
def owner : Home → Option Nat
  | fetching o | owned o | recalling o => some o
  | _ => none

/-- The cache for which the block is fetched from memory. -/
def fetcher : Home → Option Nat
  | fetching o => some o
  | _ => none

/-- The cache whose writeback is being stored. -/
def storer : Home → Option Nat
  | storing i | recalled i => some i
  | _ => none

/-- The block is with a cache, or on its way to one. -/
def held : Home → Bool
  | owned _ | recalling _ => true
  | _ => false

/-- The cache that was told to give the block back. -/
def recaller : Home → Option Nat
  | recalling o => some o
  | _ => none

/-- The block is being given back for a DMA access. -/
def closed : Home → Bool
  | recalling _ | recalled _ => true
  | _ => false

end Home

/-- Who is told to give the block to whom: each that waits has one giver, and givers come before. -/
structure Chained (role : Nat → Role) : Prop where
  gives : ∀ j c, (role j).gives = some c → (role c).waits = true
  once : ∀ i j c, (role i).gives = some c → (role j).gives = some c → i = j
  waits : ∀ i, (role i).waits = true → ∃ j, (role j).gives = some i
  rank : ∃ rank : Nat → Nat, ∀ j c, (role j).gives = some c → rank j < rank c

/-- The roles of the caches are as the directory has it, and there is one token at most. -/
structure Placed (n : Nat) (role : Nat → Role) (home : Home) : Prop where
  bounded : ∀ i, (role i).idle = false → i < n
  current : ∀ i, (role i).current = true ↔ home.owner = some i
  fetches : ∀ i, (role i).fetches = true ↔ home.fetcher = some i
  writes : ∀ i, (role i).writes = true ↔ home.storer = some i
  token : ∀ i j, (role i).token = true → (role j).token = true → i = j
  held : ∀ i, (role i).token = true → home.held = true
  recalled : ∀ i, (role i).recalled = true → home.recaller = some i
  closed : home.closed = true → ∀ i, (role i).yielded = false ∧ (role i).gives = none

/-- How the roles of the caches and the home of the block fit together. -/
structure Ruled (n : Nat) (role : Nat → Role) (home : Home) : Prop extends
  Placed n role home, Chained role

/-! ## Chains -/

-- What every step below rewrites with: the roles and the homes, and who has changed.
attribute [local grind =] update_apply Role.away Role.busy Home.owner Home.fetcher Home.storer
  Home.held Home.recaller Home.closed

namespace Chained

variable {role role' : Nat → Role} {i c o : Nat} {r : Role}

theorem update (h : Chained role) (hgives : r.gives = (role i).gives)
    (hwaits : r.waits = (role i).waits) : Chained (Function.update role i r) := by
  have hg : ∀ j, (Function.update role i r j).gives = (role j).gives := by
    intro j
    rw [update_apply]
    split
    next heq => rw [heq, hgives]
    next => rfl
  have hw : ∀ j, (Function.update role i r j).waits = (role j).waits := by
    intro j
    rw [update_apply]
    split
    next heq => rw [heq, hwaits]
    next => rfl
  obtain ⟨rank, hrank⟩ := h.rank
  refine ⟨?_, ?_, ?_, rank, ?_⟩
  · intro j c hj
    rw [hw]
    exact h.gives j c (by rw [← hg]; exact hj)
  · intro a b c ha hb
    rw [hg] at ha hb
    exact h.once a b c ha hb
  · intro j hj
    rw [hw] at hj
    obtain ⟨w, hgive⟩ := h.waits j hj
    exact ⟨w, by rw [hg]; exact hgive⟩
  · intro j c hj
    rw [hg] at hj
    exact hrank j c hj

/-- **The chain gets longer**: the last one is told to pass the block on to `i`, who waits for it. -/
theorem extend (h : Chained role) (hne : o ≠ i) {r : Role} (hgives : r.gives = some i)
    (hwaits : r.waits = (role o).waits) (hlast : (role o).gives = none) {w : Role}
    (hw : w.waits = true) (hw' : w.gives = none) (hi : (role i).gives = none) (hi' : (role i).waits = false) :
    Chained (Function.update (Function.update role o r) i w) := by
  obtain ⟨rank, hrank⟩ := h.rank
  -- nobody gives to `i` yet, and `i` gives to nobody
  have hnone : ∀ j, (role j).gives ≠ some i := by
    intro j hj
    rw [h.gives j i hj] at hi'
    cases hi'
  refine ⟨?_, ?_, ?_, Function.update rank i (rank o + 1), ?_⟩
  · have := h.gives
    grind -ring -linarith
  · have := h.once
    grind -ring -linarith
  · intro j hj
    by_cases hji : j = i
    · exact ⟨o, by grind -ring -linarith⟩
    · obtain ⟨g, hg⟩ := h.waits j (by grind -ring -linarith)
      exact ⟨g, by grind -ring -linarith⟩
  · grind -ring -linarith

/-- **The block goes one step along the chain.** -/
theorem hand (h : Chained role) (hgive : (role i).gives = some c) (hwait : (role i).waits = false)
    {r w : Role} (hr : r.gives = none) (hr' : r.waits = false) (hw : w.waits = false)
    (hw' : w.gives = (role c).gives) : Chained (Function.update (Function.update role i r) c w) := by
  obtain ⟨rank, hrank⟩ := h.rank
  refine ⟨?_, ?_, ?_, rank, ?_⟩
  · have := h.gives
    have := h.once
    grind -ring -linarith
  · have := h.once
    grind -ring -linarith
  · intro j hj
    obtain ⟨g, hg⟩ := h.waits j (by grind -ring -linarith)
    exact ⟨g, by grind -ring -linarith⟩
  · grind -ring -linarith

end Chained

/-! ## The moves -/

namespace Ruled

variable {n : Nat} {role : Nat → Role} {home : Home} {i c o : Nat}

theorem init : Ruled n (fun _ => .away) .free where
  bounded := by simp [Role.away]
  current := by simp [Role.away, Role.busy, Home.owner]
  fetches := by simp [Role.away, Role.busy, Home.fetcher]
  writes := by simp [Role.away, Role.busy, Home.storer]
  token := by simp [Role.away, Role.busy]
  held := by simp [Role.away, Role.busy]
  recalled := by simp [Role.away, Role.busy]
  closed := by simp [Home.closed]
  gives := by simp [Role.away, Role.busy]
  once := by simp [Role.away, Role.busy]
  waits := by simp [Role.away, Role.busy]
  rank := ⟨fun _ => 0, by simp [Role.away, Role.busy]⟩

/-- A cache asks for the block. -/
theorem ask (h : Ruled n role home) (hi : i < n) (hrole : role i = .away) :
    Ruled n (Function.update role i .busy) home := by
  obtain ⟨⟨⟩, hchain⟩ := h
  refine ⟨?_, hchain.update (by rw [hrole]; rfl) (by rw [hrole]; rfl)⟩
  constructor <;> grind -ring -linarith

/-- A cache is done. -/
theorem finish (h : Ruled n role home) (hrole : role i = .busy) : Ruled n (Function.update role i .away) home := by
  obtain ⟨⟨⟩, hchain⟩ := h
  refine ⟨?_, hchain.update (by rw [hrole]; rfl) (by rw [hrole]; rfl)⟩
  constructor <;> grind -ring -linarith

/-- Nobody has the block: it is fetched for the cache that asks. -/
theorem fetch (h : Ruled n role .free) (hrole : role i = .busy) :
    Ruled n (Function.update role i { Role.busy with current := true, fetches := true }) (.fetching i) := by
  obtain ⟨⟨⟩, hchain⟩ := h
  refine ⟨?_, hchain.update (by rw [hrole]) (by rw [hrole])⟩
  constructor <;> grind -ring -linarith

/-- The block arrives from memory. -/
theorem supply (h : Ruled n role (.fetching o))
    (hrole : role o = { Role.busy with current := true, fetches := true }) :
    Ruled n (Function.update role o { Role.busy with current := true, token := true }) (.owned o) := by
  obtain ⟨⟨⟩, hchain⟩ := h
  refine ⟨?_, hchain.update (by rw [hrole]) (by rw [hrole])⟩
  constructor <;> grind -ring -linarith

/-- The owner is told to pass the block on, and the next one is the owner. -/
theorem forward (h : Ruled n role (.owned o)) (hne : o ≠ i) (hrole : role i = .busy) (hlast : (role o).gives = none) :
    Ruled n (Function.update (Function.update role o { role o with current := false, gives := some i })
      i { Role.busy with current := true, waits := true }) (.owned i) := by
  obtain ⟨⟨⟩, hchain⟩ := h
  refine ⟨?_, hchain.extend (r := { role o with current := false, gives := some i })
    (w := { Role.busy with current := true, waits := true }) hne rfl rfl hlast rfl rfl
    (by rw [hrole]; rfl) (by rw [hrole]; rfl)⟩
  constructor <;> grind -ring -linarith

section

variable (h : Ruled n role home)

include h

theorem hand (hgive : (role i).gives = some c)
    (htok : (role i).token = true) (hwait : (role i).waits = false) {r : Role}
    (hr : r = { Role.busy with idle := r.idle, yielded := r.yielded }) (hcur : (role i).current = false)
    (hfetch : (role i).fetches = false) (hwrite : (role i).writes = false) (hi : i < n) :
    Ruled n (Function.update (Function.update role i r) c { role c with waits := false, token := true }) home := by
  have hrg : r.gives = none := by rw [hr]; rfl
  have hrw : r.waits = false := by rw [hr]; rfl
  obtain ⟨hrules, hchain⟩ := h
  cases hrules
  refine ⟨?_, hchain.hand hgive hwait hrg hrw rfl rfl⟩
  constructor <;> grind -ring -linarith

/-- The owner's writeback is accepted. -/
theorem accept {home' : Home}
    (hhome : home = .owned i ∧ home' = .storing i ∨ home = .recalling i ∧ home' = .recalled i)
    (hi : i < n) (htok : (role i).token = true) (hgives : (role i).gives = none) (hwaits : (role i).waits = false) :
    Ruled n (Function.update role i { Role.busy with writes := true }) home' := by
  obtain ⟨⟨⟩, hchain⟩ := h
  refine ⟨?_, hchain.update (by rw [hgives]; rfl) (by rw [hwaits]; rfl)⟩
  rcases hhome with ⟨rfl, rfl⟩ | ⟨rfl, rfl⟩ <;> constructor <;>
    grind -ring -linarith

/-- The writeback is stored. -/
theorem stored (hhome : home = .storing i ∨ home = .recalled i)
    (hrole : role i = { Role.busy with writes := true }) : Ruled n (Function.update role i .busy) .free := by
  obtain ⟨⟨⟩, hchain⟩ := h
  refine ⟨?_, hchain.update (by rw [hrole]) (by rw [hrole])⟩
  rcases hhome with rfl | rfl <;> constructor <;>
    grind -ring -linarith

/-- A former owner's writeback is not needed. -/
theorem nack (hrole : role i = { Role.busy with yielded := true }) :
    Ruled n (Function.update role i .busy) home := by
  obtain ⟨⟨⟩, hchain⟩ := h
  refine ⟨?_, hchain.update (by rw [hrole]) (by rw [hrole])⟩
  constructor <;> grind -ring -linarith

end

/-- The owner is told to give the block back. -/
theorem recall_owner (h : Ruled n role (.owned o)) (hsettled : ∀ i, (role i).yielded = false ∧ (role i).gives = none) :
    Ruled n (Function.update role o { role o with recalled := true }) (.recalling o) := by
  obtain ⟨⟨⟩, hchain⟩ := h
  refine ⟨?_, hchain.update rfl rfl⟩
  constructor <;> grind -ring -linarith

theorem seen (h : Ruled n role home) : Ruled n (Function.update role i { role i with recalled := false }) home := by
  obtain ⟨⟨⟩, hchain⟩ := h
  refine ⟨?_, hchain.update rfl rfl⟩
  constructor <;> grind -ring -linarith

end Ruled

end NvpSim.Ruby.Mi
