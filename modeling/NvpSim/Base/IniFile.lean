/-
  Configuration files (`base/inifile.{hh,cc}`): sections of entries, read from a text.

  The tables of sections and entries are functions of the name.  `none` is that `load` returns false, or reads
  in front of an assignment that starts with `=`.
-/
import NvpSim.Base.Str

namespace NvpSim.Base

open List

/-- `IniFile::Section`: the values of its entries. -/
abbrev IniSection := List Char → Option (List Char)

/-- `IniFile`: its sections. -/
abbrev IniFile := List Char → Option IniSection

namespace IniSection

def addEntry (s : IniSection) (entryName value : List Char) (append : Bool) : IniSection :=
  match s entryName with
  | none => Function.update s entryName (some value)
  | some old =>
    if append then Function.update s entryName (some (old ++ ' ' :: value))
    else Function.update s entryName (some value)

def add (s : IniSection) (assignment : List Char) : Option IniSection :=
  let lhs := assignment.takeWhile (· != '=')
  match assignment.dropWhile (· != '=') with
  | [] => none
  | _ :: value =>
    match lhs.getLast? with
    | none => none
    | some c =>
      -- if "+=" rather than just "=" then append value
      let append := c == '+'
      let entryName := if append then lhs.dropLast else lhs
      some (s.addEntry (eatWhite entryName) (eatWhite value) append)

end IniSection

namespace IniFile

/-- An `IniFile` without sections. -/
def empty : IniFile := fun _ => none

def addSection (f : IniFile) (sectionName : List Char) : IniFile :=
  match f sectionName with
  | some _ => f
  | none => Function.update f sectionName (some fun _ => none)

/-- `section->add(line)` for the section of a name. -/
def addLine (f : IniFile) (sectionName line : List Char) : Option IniFile :=
  (((f sectionName).getD fun _ => none).add line).map fun s => Function.update f sectionName (some s)

/-- The name of the section that a line opens. -/
def sectionHeader (line : List Char) : Option (List Char) :=
  if line.head? = some '[' ∧ line.getLast? = some ']' then some (eatWhite line.tail.dropLast)
  else none

/-- What `load` does with a line: the section that is open afterwards, and the file. -/
def loadLine (f : IniFile) (openSection : Option (List Char)) (line : List Char) :
    Option (Option (List Char) × IniFile) :=
  let line := eatEndWhite line
  match sectionHeader line with
  | some sectionName => some (some sectionName, f.addSection sectionName)
  | none =>
    match openSection with
    | none => some (none, f)
    | some sectionName => (f.addLine sectionName line).map (some sectionName, ·)

/-- What is left of a text after a line. -/
def nextLine (text : List Char) : List Char := (text.dropWhile (· != '\n')).drop 1

theorem length_nextLine_lt {text rest : List Char} {c : Char} (h : text.dropWhile isSpace = c :: rest) :
    (nextLine (c :: rest)).length < text.length := by
  have hle := (dropWhile_sublist (l := text) isSpace).length_le
  have hle' := (dropWhile_sublist (l := c :: rest) (· != '\n')).length_le
  unfold nextLine
  rw [h, length_cons] at hle
  rw [length_cons] at hle'
  rw [length_drop]
  omega

/-- The loop of `load(f)`: eat whitespace, get a line. -/
def loadLoop (f : IniFile) (openSection : Option (List Char)) (text : List Char) : Option IniFile :=
  match h : text.dropWhile isSpace with
  | [] => some f
  | c :: rest =>
    have := length_nextLine_lt h
    match loadLine f openSection ((c :: rest).takeWhile (· != '\n')) with
    | none => none
    | some (openSection, f) => loadLoop f openSection (nextLine (c :: rest))
  termination_by text.length

def load (text : List Char) : Option IniFile := loadLoop empty none text

def find (f : IniFile) (sectionName entryName : List Char) : Option (List Char) :=
  (f sectionName).bind fun s => s entryName

end IniFile

end NvpSim.Base
