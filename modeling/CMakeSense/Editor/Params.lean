import CMakeSense.Editor.Shape
import CMakeSense.Query.Source

/-! Reading the parameters of editor messages. A reader reads JSON over a value that stands there
already, so that an object may name a member more than once, in different letter case: what is said
later is read over what was said before, and null says nothing, or takes away what may be missing. A
value of the wrong type makes the parameters unreadable. -/

namespace CMakeSense.Editor

/-- Reads JSON over a value. -/
abbrev Reader (α : Type) := α → JsonValue → Option α

namespace Reader

def text : Reader Text
  | old, .null => some old
  | _, .string text => some text
  | _, _ => none

/-- An integer that fits in 32 bits without a sign. -/
def unsigned : Reader Int
  | old, .null => some old
  | _, .number digits 0 => if 0 ≤ digits ∧ digits < 0x100000000 then some digits else none
  | _, _ => none

/-- A value that may be missing; `zero` is what it is read over when it was missing so far. -/
def optional (zero : α) (read : Reader α) : Reader (Option α)
  | _, .null => some none
  | old?, value => (read (old?.getD zero) value).map some

/-- The items of a list as they are. -/
def items : Reader (List JsonValue)
  | _, .null => some []
  | _, .array items => some items
  | _, _ => none

/-- A value that nobody asks for. -/
def unused (shape : Shape) : Reader Unit := fun _ value =>
  if shape.admits value then some () else none

/-- A member of an object, and what reading it does to the whole. -/
structure Member (σ : Type) where
  name : String
  read : Reader σ

/-- A member that is a part of the whole. -/
def part (name : String) (get : σ → α) (put : σ → α → σ) (read : Reader α) : Member σ :=
  ⟨name, fun whole value => (read (get whole) value).map (put whole)⟩

/-- A member that nobody asks for. -/
def ignored (name : String) (shape : Shape) : Member σ :=
  ⟨name, fun whole value => (unused shape () value).map fun _ => whole⟩

/-- An object with the given members, read in the order in which they are written. -/
def object (members : List (Member σ)) : Reader σ
  | old, .null => some old
  | old, .object given => given.foldlM (fun whole (key, value) =>
    match members.find? fun member => Shape.names member.name key with
    | some member => member.read whole value
    | none => some whole) old
  | _, _ => none

/-- A place in a document. -/
def position : Reader Position :=
  object [part "line" (·.line) (fun place line => { place with line }) unsigned,
    part "character" (·.column) (fun place column => { place with column }) unsigned]

end Reader

end CMakeSense.Editor
