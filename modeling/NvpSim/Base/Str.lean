/-
  Strings and numbers (`base/str.{hh,cc}`): trimming, splitting into tokens, and `to_number`, with the functions
  of the C++ library that `to_number` calls.

  `none` of `toNumber` is the exception that the C++ code catches.  The number of `strtold` is the EXACT
  rational that the text denotes; hexadecimal floating-point numbers, infinities and NaNs are left out.
-/
import NvpSim.Lib.Numeral

namespace NvpSim.Base

open NvpSim.Lib.Numeral

def isSpace (c : Char) : Bool :=
  c == ' ' || c == '\t' || c == '\n' || c == '\x0b' || c == '\x0c' || c == '\r'

/-- A property of the characters of a text is decided along the text, not over all characters there are. -/
instance decidableAllChars (p : Char → Prop) [DecidablePred p] (s : List Char) :
    Decidable (∀ c ∈ s, p c) := List.decidableBAll p s

/-! ## Trimming -/

/-- `eat_lead_white(s)`; a string of blanks is left as it is. -/
def eatLeadWhite (s : List Char) : List Char :=
  if s.all (· == ' ') then s else s.dropWhile (· == ' ')

/-- `eat_end_white(s)`; a string of blanks is left as it is. -/
def eatEndWhite (s : List Char) : List Char :=
  if s.all (· == ' ') then s else (s.reverse.dropWhile (· == ' ')).reverse

def eatWhite (s : List Char) : List Char := eatEndWhite (eatLeadWhite s)

/-! ## Tokens -/

/-- The loop of `tokenize`, from the start of a token. -/
def tokenizeLoop (token : Char) (ign : Bool) (s : List Char) : List (List Char) :=
  match h : s.dropWhile (· != token) with
  | [] => [s]
  | _ :: rest =>
    have hlt : rest.length < s.length := by
      have hle := (List.dropWhile_sublist (l := s) (· != token)).length_le
      rw [h, List.length_cons] at hle
      omega
    s.takeWhile (· != token) ::
      if ign then
        have hle := (List.dropWhile_sublist (l := rest) (· == token)).length_le
        if (rest.dropWhile (· == token)).isEmpty then []
        else tokenizeLoop token ign (rest.dropWhile (· == token))
      else tokenizeLoop token ign rest
  termination_by s.length
  decreasing_by all_goals omega

def tokenize (s : List Char) (token : Char) (ign : Bool) : List (List Char) :=
  if s.isEmpty then []
  else if ign && s.head? == some token then
    let s := s.dropWhile (· == token)
    if s.isEmpty then [] else tokenizeLoop token ign s
  else tokenizeLoop token ign s

/-- The text after leading characters `c` starts with another one. -/
theorem head?_dropWhile_ne (c : Char) (s : List Char) : (s.dropWhile (· == c)).head? ≠ some c := by
  intro h
  have hnot := List.head?_dropWhile_not (· == c) s
  simp [h] at hnot

/-! ## Numbers -/

/-- An optional sign, and the rest. -/
def sign : List Char → Bool × List Char
  | '-' :: cs => (true, cs)
  | '+' :: cs => (false, cs)
  | cs => (false, cs)

/-- The digits of a base at the start of a text, if there are any, as a number. -/
def number (b : Nat) (cs : List Char) : Option Nat :=
  match cs.takeWhile (isDigit b) with
  | [] => none
  | d :: ds => some (ofDigits b (d :: ds))

/-- A number whose base is told by its first characters, as for `strtoll` and `strtoull` in base 0. -/
def numberBase0 : List Char → Option Nat
  | '0' :: x :: d :: cs =>
    if (x == 'x' || x == 'X') && isDigit 16 d then number 16 (d :: cs)
    else number 8 ('0' :: x :: d :: cs)
  | '0' :: cs => number 8 ('0' :: cs)
  | cs => number 10 cs

def stoll (value : List Char) : Option Int :=
  let (neg, cs) := sign (value.dropWhile isSpace)
  (numberBase0 cs).bind fun n =>
    let r : Int := if neg then -(n : Int) else n
    if -2 ^ 63 ≤ r ∧ r < 2 ^ 63 then some r else none

/-- `std::stoull(value, nullptr, 0)`; a negative number wraps around. -/
def stoull (value : List Char) : Option Nat :=
  let (neg, cs) := sign (value.dropWhile isSpace)
  (numberBase0 cs).bind fun n =>
    if n < 2 ^ 64 then some (if neg then (2 ^ 64 - n) % 2 ^ 64 else n) else none

/-- The exponent at the start of a text, or zero. -/
def exponent : List Char → Int
  | e :: cs =>
    if e == 'e' || e == 'E' then
      let (neg, cs) := sign cs
      match number 10 cs with
      | none => 0
      | some n => if neg then -(n : Int) else n
    else 0
  | [] => 0

/-- The fraction at the start of a text, and the rest. -/
def fraction : List Char → List Char × List Char
  | '.' :: cs => (cs.takeWhile (isDigit 10), cs.dropWhile (isDigit 10))
  | cs => ([], cs)

def stold (value : List Char) : Option ℚ :=
  let (neg, cs) := sign (value.dropWhile isSpace)
  let ip := cs.takeWhile (isDigit 10)
  let (fp, rest) := fraction (cs.dropWhile (isDigit 10))
  if (ip ++ fp).isEmpty then none
  else some ((if neg then -1 else 1) * decimal ip fp * 10 ^ exponent rest)

/-- An integral type. -/
structure IntType where
  bits : Nat
  signed : Bool
  pos : 0 < bits
  le : bits ≤ 64

namespace IntType

/-- `std::numeric_limits<T>::min()`. -/
def min (t : IntType) : Int := if t.signed then -2 ^ (t.bits - 1) else 0

/-- `std::numeric_limits<T>::max()`. -/
def max (t : IntType) : Int := if t.signed then 2 ^ (t.bits - 1) - 1 else 2 ^ t.bits - 1

/-- `__to_number<T>(value)` for signed and for unsigned integral types. -/
def toNumber (t : IntType) (value : List Char) : Option Int :=
  if t.signed then
    (stoll value).bind fun r => if r < t.min ∨ t.max < r then none else some r
  else
    (stoull value).bind fun r => if t.max < r then none else some r

end IntType

/-- The floating-point types. -/
inductive FloatType where
  | float
  | double
  deriving DecidableEq, Repr

namespace FloatType

/-- `std::numeric_limits<T>::min()`: the smallest POSITIVE normal number. -/
def min : FloatType → ℚ
  | .float => 1 / 2 ^ 126
  | .double => 1 / 2 ^ 1022

/-- `std::numeric_limits<T>::max()`. -/
def max : FloatType → ℚ
  | .float => (2 ^ 24 - 1) * 2 ^ 104
  | .double => (2 ^ 53 - 1) * 2 ^ 971

/-- `__to_number<T>(value)` for floating-point types. -/
def toNumber (t : FloatType) (value : List Char) : Option ℚ :=
  (stold value).bind fun r => if r < t.min ∨ t.max < r then none else some r

end FloatType

def toLower (s : List Char) : List Char := s.map Char.toLower

def toBool (value : List Char) : Option Bool :=
  if toLower value = "true".toList then some true
  else if toLower value = "false".toList then some false
  else none

end NvpSim.Base
