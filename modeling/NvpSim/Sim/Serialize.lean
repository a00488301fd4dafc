/-
  Parameters of a checkpoint (`sim/serialize.cc`): `showParam` and `parseParam` for each type, and the functions
  that write a parameter to a stream and read it back from a loaded file.

  A value in memory is an element of `ScalarType.Mem`, so that an integer is always within its type.  A
  floating-point value is what `operator<<` makes of it: a sign, SIX significant digits and a decimal
  exponent; it stands for the rational that this text denotes (`DecimalFloat.value`).  What is read back
  is an integer, a truth value or a rational (`ScalarType.Val`).

  `none` of the functions that read is the `fatal` of the source.
-/
import NvpSim.Base.IniFile

namespace NvpSim.Sim

open NvpSim.Base NvpSim.Lib.Numeral

/-! ## Floating-point output -/

/-- A floating-point value as it is written: six significant digits `mant`, the first of which has the
    weight `10 ^ exp`; or zero. -/
structure DecimalFloat where
  neg : Bool
  mant : Nat
  exp : Int
  ok : mant = 0 ∧ exp = 0 ∨ 10 ^ 5 ≤ mant ∧ mant < 10 ^ 6

namespace DecimalFloat

/-- The number that the text denotes. -/
def value (f : DecimalFloat) : ℚ := (if f.neg then -1 else 1) * f.mant * 10 ^ (f.exp - 5)

/-- An integral part and a fraction; the point is left out with the fraction. -/
def pointed (ip fp : List Char) : List Char := if fp.isEmpty then ip else ip ++ '.' :: fp

/-- An exponent, of at least two digits. -/
def showExp (e : Int) : List Char :=
  let ds := Nat.toDigits 10 e.natAbs
  'e' :: (if e < 0 then '-' else '+') :: if ds.length < 2 then '0' :: ds else ds

/-- `os << value`: the format `%g` with a precision of six. -/
def text (f : DecimalFloat) : List Char :=
  let ds := Nat.toDigits 10 f.mant
  (if f.neg then ['-'] else []) ++
    if f.mant = 0 then ['0']
    else if f.exp < -4 ∨ 6 ≤ f.exp then pointed (ds.take 1) (trim (ds.drop 1)) ++ showExp f.exp
    else if f.exp < 0 then
      pointed ['0'] (trim (List.replicate (f.exp.natAbs - 1) '0' ++ ds))
    else pointed (ds.take (f.exp.toNat + 1)) (trim (ds.drop (f.exp.toNat + 1)))

end DecimalFloat

/-! ## Types -/

/-- The types of parameters. -/
inductive ScalarType where
  | int (t : IntType)
  | bool
  | float (t : FloatType)

namespace ScalarType

/-- A value in memory. -/
def Mem : ScalarType → Type
  | .int t => { v : Int // t.min ≤ v ∧ v ≤ t.max }
  | .bool => Bool
  | .float t => { f : DecimalFloat // -t.max ≤ f.value ∧ f.value ≤ t.max }

/-- What is read. -/
def Val : ScalarType → Type
  | .int _ => Int
  | .bool => Bool
  | .float _ => ℚ

/-- What a value stands for. -/
def val : (t : ScalarType) → t.Mem → t.Val
  | .int _, v => v.1
  | .bool, v => v
  | .float _, f => f.1.value

/-- `showParam(os, value)`; characters are written as integers, too. -/
def showParam : (t : ScalarType) → t.Mem → List Char
  | .int _, v => if v.1 < 0 then '-' :: Nat.toDigits 10 v.1.natAbs else Nat.toDigits 10 v.1.natAbs
  | .bool, true => "true".toList
  | .bool, false => "false".toList
  | .float _, f => f.1.text

def parseParam : (t : ScalarType) → List Char → Option t.Val
  | .int t, s => t.toNumber s
  | .bool, s => toBool s
  | .float t, s => t.toNumber s

end ScalarType

/-! ## Writing -/

def nameOut (name : List Char) : List Char := '\n' :: '[' :: name ++ ']' :: ['\n']

/-- A line of the file: the name of a parameter and its text. -/
def assignment (name text : List Char) : List Char := name ++ '=' :: text ++ ['\n']

def paramOut (t : ScalarType) (name : List Char) (param : t.Mem) : List Char :=
  assignment name (t.showParam param)

/-- The loop of `arrayParamOut`: a blank in front of each further element. -/
def showRest (t : ScalarType) : List t.Mem → List Char
  | [] => []
  | v :: vs => ' ' :: t.showParam v ++ showRest t vs

/-- The elements of an array. -/
def showArray (t : ScalarType) : List t.Mem → List Char
  | [] => []
  | v :: vs => t.showParam v ++ showRest t vs

/-- `arrayParamOut(os, name, param, size)`, and that for vectors. -/
def arrayParamOut (t : ScalarType) (name : List Char) (param : List t.Mem) : List Char :=
  assignment name (showArray t param)

/-! ## Reading -/

def paramIn (t : ScalarType) (cp : IniFile) (section_ name : List Char) : Option t.Val :=
  (cp.find section_ name).bind t.parseParam

/-- `arrayParamIn(cp, section, name, param)` for vectors. -/
def vectorParamIn (t : ScalarType) (cp : IniFile) (section_ name : List Char) : Option (List t.Val) :=
  (cp.find section_ name).bind fun str => (tokenize str ' ' true).mapM t.parseParam

def arrayParamIn (t : ScalarType) (cp : IniFile) (section_ name : List Char) (size : Nat) : Option (List t.Val) :=
  (cp.find section_ name).bind fun str =>
    let tokens := tokenize str ' ' true
    if tokens.length ≠ size then none else tokens.mapM t.parseParam

end NvpSim.Sim
