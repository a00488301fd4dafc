/-
  Numerals: texts that denote numbers, and how they are read back.

  `ofDigits b` reads digits in base `b`; `Nat.toDigits` of the core library writes them.  A decimal numeral is
  an integral part, a fraction and an exponent, and denotes a rational: `decimal ip fp * 10 ^ e`.

  Reading a prefix of a text is `takeWhile` and `dropWhile` with the digits of a base; the lemmas say that a
  numeral is read as a whole, and that what follows it is left.
-/
import Mathlib.Algebra.Order.Field.Rat
import Mathlib.Data.List.Induction
import Mathlib.Tactic.FieldSimp
import Mathlib.Tactic.Ring

namespace NvpSim.Lib.Numeral

open List

/-! ## Digits -/

/-- The value of a digit, letters being digits above nine; at least 36 for any other character. -/
def digitVal (c : Char) : Nat :=
  if '0' ≤ c ∧ c ≤ '9' then c.toNat - '0'.toNat
  else if 'a' ≤ c ∧ c ≤ 'z' then c.toNat - 'a'.toNat + 10
  else if 'A' ≤ c ∧ c ≤ 'Z' then c.toNat - 'A'.toNat + 10
  else 36

/-- A digit of base `b`. -/
def isDigit (b : Nat) (c : Char) : Bool := digitVal c < b

/-- The number that a row of digits denotes. -/
def ofDigits (b : Nat) (cs : List Char) : Nat := cs.foldl (fun n c => b * n + digitVal c) 0

@[simp] theorem ofDigits_nil (b : Nat) : ofDigits b [] = 0 := rfl

/-- One more digit at the end. -/
theorem ofDigits_snoc (b : Nat) (cs : List Char) (c : Char) :
    ofDigits b (cs ++ [c]) = b * ofDigits b cs + digitVal c := by
  unfold ofDigits
  rw [foldl_append]
  rfl

theorem digitVal_digitChar : ∀ d < 10, digitVal d.digitChar = d := by decide

theorem digitVal_zero : digitVal '0' = 0 := by decide

/-- **What is written is read back.** -/
theorem ofDigits_toDigits (n : Nat) : ofDigits 10 (Nat.toDigits 10 n) = n := by
  induction n using Nat.strongRecOn with
  | ind n ih =>
    rw [Nat.toDigits_eq_if (by omega)]
    by_cases hn : n < 10
    · rw [if_pos hn]
      show 10 * 0 + digitVal n.digitChar = n
      rw [digitVal_digitChar n hn]
      omega
    · rw [if_neg hn, ofDigits_snoc, ih (n / 10) (by omega), digitVal_digitChar _ (by omega)]
      omega

theorem isDigit_of_mem_toDigits {n : Nat} {c : Char} (h : c ∈ Nat.toDigits 10 n) : isDigit 10 c = true := by
  induction n using Nat.strongRecOn with
  | ind n ih =>
    have hdigit : ∀ d < 10, isDigit 10 d.digitChar = true := by
      intro d hd
      unfold isDigit
      rw [digitVal_digitChar d hd]
      exact decide_eq_true hd
    rw [Nat.toDigits_eq_if (by omega)] at h
    by_cases hn : n < 10
    · rw [if_pos hn, mem_singleton] at h
      rw [h]
      exact hdigit n hn
    · rw [if_neg hn, mem_append, mem_singleton] at h
      rcases h with h | rfl
      · exact ih (n / 10) (by omega) h
      · exact hdigit _ (by omega)

/-- There are no leading zeros. -/
theorem head_toDigits_ne_zero {n : Nat} (hn : 0 < n) {c : Char} {cs : List Char}
    (h : Nat.toDigits 10 n = c :: cs) : c ≠ '0' := by
  induction n using Nat.strongRecOn generalizing cs with
  | ind n ih =>
    rw [Nat.toDigits_eq_if (by omega)] at h
    by_cases hlt : n < 10
    · rw [if_pos hlt] at h
      cases h
      intro heq
      have hval := digitVal_digitChar n hlt
      rw [heq, digitVal_zero] at hval
      omega
    · rw [if_neg hlt] at h
      cases hq : Nat.toDigits 10 (n / 10) with
      | nil => exact absurd hq Nat.toDigits_ne_nil
      | cons d ds =>
        rw [hq] at h
        cases h
        exact ih (n / 10) (by omega) (by omega) hq

/-- The number of digits. -/
theorem length_toDigits {n k : Nat} (hlo : 10 ^ k ≤ n) (hhi : n < 10 ^ (k + 1)) :
    (Nat.toDigits 10 n).length = k + 1 := by
  induction k generalizing n with
  | zero =>
    rw [Nat.toDigits_of_lt_base (by omega)]
    rfl
  | succ k ih =>
    rw [Nat.toDigits_eq_if (by omega), if_neg (by omega), length_append, ih (by omega) (by omega)]
    rfl

/-! ## Reading a row of digits -/

variable {b : Nat} {ds rest : List Char}

/-- What follows a row of digits is no digit. -/
def Stops (b : Nat) (rest : List Char) : Prop := ∀ c ∈ rest.head?, isDigit b c = false

theorem stops_nil : Stops b [] := by
  intro c hc
  cases hc

/-- The digits in front of a text that goes on otherwise. -/
theorem takeWhile_digits (hds : ∀ c ∈ ds, isDigit b c = true) (hrest : Stops b rest) :
    (ds ++ rest).takeWhile (isDigit b) = ds := by
  rw [takeWhile_append_of_pos hds]
  cases rest with
  | nil => rw [takeWhile_nil, append_nil]
  | cons c rest =>
    rw [takeWhile_cons_of_neg (by rw [hrest c rfl]; decide), append_nil]

theorem dropWhile_digits (hds : ∀ c ∈ ds, isDigit b c = true) (hrest : Stops b rest) :
    (ds ++ rest).dropWhile (isDigit b) = rest := by
  rw [dropWhile_append_of_pos hds]
  cases rest with
  | nil => rfl
  | cons c rest => rw [dropWhile_cons_of_neg (by rw [hrest c rfl]; decide)]

/-! ## Decimal fractions -/

/-- The number with an integral part `ip` and a fraction `fp`. -/
def decimal (ip fp : List Char) : ℚ := ofDigits 10 (ip ++ fp) / 10 ^ fp.length

/-- A row of digits without its trailing zeros. -/
def trim (ds : List Char) : List Char := (ds.reverse.dropWhile (· == '0')).reverse

theorem trim_snoc_zero (ds : List Char) : trim (ds ++ ['0']) = trim ds := by
  unfold trim
  rw [reverse_append]
  rfl

theorem trim_snoc_of_ne {c : Char} (hc : c ≠ '0') (ds : List Char) : trim (ds ++ [c]) = ds ++ [c] := by
  unfold trim
  rw [reverse_append, reverse_singleton, singleton_append,
    dropWhile_cons_of_neg (by simpa using hc), reverse_cons, reverse_reverse]

theorem mem_of_mem_trim {c : Char} (h : c ∈ trim ds) : c ∈ ds := by
  have hdrop := (dropWhile_sublist (· == '0')).mem (mem_reverse.mp h)
  exact mem_reverse.mp hdrop

/-- A zero at the end of a fraction does not count. -/
theorem decimal_snoc_zero (ip fp : List Char) : decimal ip (fp ++ ['0']) = decimal ip fp := by
  unfold decimal
  rw [← append_assoc, ofDigits_snoc, digitVal_zero, length_append, length_singleton]
  push_cast
  field_simp
  ring

/-- **Trailing zeros do not count.** -/
theorem decimal_trim (ip fp : List Char) : decimal ip (trim fp) = decimal ip fp := by
  induction fp using List.reverseRecOn with
  | nil => rfl
  | append_singleton fp c ih =>
    by_cases hc : c = '0'
    · rw [hc, trim_snoc_zero, ih, decimal_snoc_zero]
    · rw [trim_snoc_of_ne hc]

end NvpSim.Lib.Numeral
