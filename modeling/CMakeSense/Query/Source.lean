import CMakeSense.Script.Lines
import CMakeSense.Text.Path

/-! The subject of a query: a buffer with its path, the names it sees from other files, and the
options in force. -/

namespace CMakeSense

/-- Choices of the user that some queries depend on. -/
structure Options where
  /-- Offer only subdirectories that hold a script of their own. -/
  requireLists : Bool
  /-- The directory of shared modules; none when empty. -/
  modulesDir : Text
  deriving DecidableEq, Repr

/-- The names that other files define. -/
structure SymbolTable where
  normalVariables : List Text
  envVariables : List Text
  cacheVariables : List Text
  functions : List Text
  macros : List Text
  /-- The parameters of a function or macro. -/
  parameters? : Text → Option (List Text)

/-- What a buffer knows of other files: nothing, a table, or a table that fails whenever it is
consulted. -/
inductive Symbols where
  | absent
  | failing
  | known (table : SymbolTable)

namespace Symbols

/-- One of the lists of the table. No table defines no names; a failing one has no answer. -/
def names? (symbols : Symbols) (field : SymbolTable → List Text) : Option (List Text) :=
  match symbols with
  | .absent => some []
  | .failing => none
  | .known table => some (field table)

/-- The parameters of a function or macro, where the table is consulted without failure. -/
def parameters? (symbols : Symbols) (name : Text) : Option (Option (List Text)) :=
  match symbols with
  | .absent => some none
  | .failing => none
  | .known table => some (table.parameters? name)

end Symbols

/-- A buffer and what a query about it may consult. -/
structure Source where
  path : Text
  lines : List Text
  symbols : Symbols
  options : Options

namespace Source

/-- The directory of the buffer. A buffer without a path is in the working directory. -/
def dir (source : Source) : Text := Path.dir source.path

end Source

/-- The place of a query: a line, counted from zero, and a byte offset in it. Positions come from
outside and may lie anywhere. -/
structure Position where
  line : Int
  column : Int
  deriving DecidableEq, Repr

end CMakeSense
