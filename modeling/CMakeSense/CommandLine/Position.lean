import CMakeSense.Query.Source
import CMakeSense.Text.Numeral
import CMakeSense.Text.Quoted

/-! Positions as they are written on the command line: the numbers of a line and a column with a
colon between them, both counted from one. -/

namespace CMakeSense.CommandLine

/-- Why a text is no position. -/
inductive PositionError.Cause where
  | noColon | badLine | badColumn
  deriving DecidableEq, Repr

structure PositionError where
  text : Text
  cause : PositionError.Cause
  deriving DecidableEq, Repr

def PositionError.message (error : PositionError) : Text :=
  utf8 "position " ++ error.text.quoted ++ utf8 ": " ++
    match error.cause with
    | .noColon => utf8 "want LINE:COL"
    | .badLine => utf8 "bad line"
    | .badColumn => utf8 "bad column"

/-- Reads a number that counts from one, as a number that counts from zero. -/
def readOrdinal? (t : Text) : Option Int :=
  (Numeral.readInt? t).bind fun n => if n < 1 then none else some (n - 1)

/-- Reads a position. The line is looked at before the column. -/
def readPosition (t : Text) : Except PositionError Position :=
  match Text.cut? Ascii.colon t with
  | none => .error ⟨t, .noColon⟩
  | some (line, column) =>
    match readOrdinal? line, readOrdinal? column with
    | none, _ => .error ⟨t, .badLine⟩
    | some _, none => .error ⟨t, .badColumn⟩
    | some line, some column => .ok ⟨line, column⟩

end CMakeSense.CommandLine
