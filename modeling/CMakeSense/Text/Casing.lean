import CMakeSense.Text.CaseRuns
import CMakeSense.Text.Utf8

/-! Letter case. Mapping a text replaces each code point by its simple case variant, so a text
keeps its number of code points though not its number of bytes; a stray byte becomes the
replacement character. Two texts are equal up to case when they fold to the same code points. -/

namespace CMakeSense.Casing

def Run.covers (run : Run) (code : Nat) : Bool :=
  run.start ≤ code && (code - run.start) % run.step == 0 &&
    (code - run.start) / run.step < run.count

/-- The image of a code point under the mapping that the runs describe. -/
def shift (runs : List Run) (code : Nat) : Nat :=
  match runs.find? (·.covers code) with
  | some run => (code + run.distance).toNat
  | none => code

def lowerCode (code : Nat) : Nat :=
  if code < 0x80 then if 0x41 ≤ code && code ≤ 0x5a then code + 0x20 else code
  else shift lowerRuns code

def upperCode (code : Nat) : Nat :=
  if code < 0x80 then if 0x61 ≤ code && code ≤ 0x7a then code - 0x20 else code
  else shift upperRuns code

/-- The common code point of the case variants of a letter. -/
def foldCode (code : Nat) : Nat :=
  if code < 0x80 then lowerCode code else shift foldRuns code

end CMakeSense.Casing

namespace CMakeSense.Text

open Casing

/-- The text with every code point replaced by its image. -/
def mapCodes (f : Nat → Nat) (t : Text) : Text :=
  (Utf8.items t).flatMap fun item => Utf8.encode (f item.code)

def toLower (t : Text) : Text := mapCodes lowerCode t

def toUpper (t : Text) : Text := mapCodes upperCode t

/-- The folded code points of a text. -/
def folded (t : Text) : List Nat := (Utf8.items t).map fun item => foldCode item.code

/-- Equality up to letter case. -/
def equalFold (a b : Text) : Bool := folded a == folded b

end CMakeSense.Text
