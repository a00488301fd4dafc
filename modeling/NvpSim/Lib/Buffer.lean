/-
  Byte buffers, as C's `memcpy` and `memcmp` see them.

  A buffer is a function from offsets: what lies beyond the bytes a program allocated is never
  read, so no length is carried.  `memcpy` and `memEq` take the two base offsets and the count, and
  the lemmas say which byte a copy reads INSIDE its window and that it leaves the rest alone.
-/
import Mathlib.Data.List.Basic
import Mathlib.Tactic.Ring

namespace NvpSim.Lib

/-- A buffer: bytes by offset. -/
abbrev Buffer (B : Type) := Nat → B

variable {B : Type}

/-- `memcpy(dst + d, src + s, n)`. -/
def memcpy (dst : Buffer B) (d : Nat) (src : Buffer B) (s n : Nat) : Buffer B :=
  fun i => if d ≤ i ∧ i < d + n then src (s + (i - d)) else dst i

/-- `memcmp(a + i, b + j, n) == 0`. -/
def memEq [DecidableEq B] (a : Buffer B) (i : Nat) (b : Buffer B) (j n : Nat) : Bool :=
  (List.range n).all (fun k => a (i + k) = b (j + k))

variable {dst src : Buffer B} {d s n i : Nat}

/-- Inside the `n` bytes the copy has those of the source. -/
theorem memcpy_of_mem (h : d ≤ i) (h' : i < d + n) : memcpy dst d src s n i = src (s + (i - d)) :=
  if_pos ⟨h, h'⟩

/-- **Frame**: outside them nothing changes. -/
theorem memcpy_of_notMem (h : i < d ∨ d + n ≤ i) : memcpy dst d src s n i = dst i :=
  if_neg (by omega)

/-- A copy into a window of a larger buffer. -/
theorem memcpy_window {big : Buffer B} {a : Nat} (h : dst i = big (a + i)) :
    memcpy dst d src s n i = memcpy big (a + d) src s n (a + i) := by
  unfold memcpy
  by_cases hi : d ≤ i ∧ i < d + n
  · rw [if_pos hi, if_pos (by omega), Nat.add_sub_add_left]
  · rw [if_neg hi, if_neg (by omega), h]

/-- A copy through a buffer in between. -/
theorem memcpy_memcpy {mid : Buffer B} : memcpy dst d (memcpy mid 0 src s n) 0 n = memcpy dst d src s n := by
  funext i
  by_cases hi : d ≤ i ∧ i < d + n
  · rw [memcpy_of_mem hi.1 hi.2, memcpy_of_mem hi.1 hi.2, memcpy_of_mem (by omega) (by omega)]
    congr 1
    omega
  · rw [memcpy_of_notMem (by omega), memcpy_of_notMem (by omega)]

/-- Two aligned blocks do not overlap. -/
theorem aligned_disjoint {a b o : Nat} (ha : a % n = 0) (hb : b % n = 0) (hne : a ≠ b)
    (ho : o < n) : a + o < b ∨ b + n ≤ a + o := by
  obtain ⟨x, rfl⟩ := Nat.dvd_of_mod_eq_zero ha
  obtain ⟨y, rfl⟩ := Nat.dvd_of_mod_eq_zero hb
  rcases Nat.lt_trichotomy x y with hlt | rfl | hgt
  · left
    calc n * x + o < n * x + n := by omega
      _ = n * (x + 1) := by ring
      _ ≤ n * y := Nat.mul_le_mul_left n hlt
  · exact absurd rfl hne
  · right
    calc n * y + n = n * (y + 1) := by ring
      _ ≤ n * x := Nat.mul_le_mul_left n hgt
      _ ≤ n * x + o := Nat.le_add_right _ _

/-- A comparison looks at the `n` bytes only. -/
theorem memEq_congr [DecidableEq B] {a b b' : Buffer B} {i j j' n : Nat}
    (h : ∀ k, k < n → b (j + k) = b' (j' + k)) : memEq a i b j n = memEq a i b' j' n := by
  unfold memEq
  rw [Bool.eq_iff_iff, List.all_eq_true, List.all_eq_true]
  constructor
  · intro hall k hk
    rw [← h k (List.mem_range.mp hk)]
    exact hall k hk
  · intro hall k hk
    rw [h k (List.mem_range.mp hk)]
    exact hall k hk

end NvpSim.Lib
