import CMakeSense.Report.Json
import CMakeSense.Text.Casing

/-! Shapes of JSON values. A shape says which values a part of a message may have. Null fits every
shape but the demand for a member. The members of an object are known by their names in any letter
case, each has to fit its shape, and members that a shape does not name are free. -/

namespace CMakeSense.Editor

inductive Shape where
  | any
  | truth
  /-- An integer of at least `lo` and less than `hi`. -/
  | integer (lo hi : Int)
  | text
  | list (item : Shape)
  | record (members : List (String × Shape))
  /-- An object that has a member of this name. -/
  | having (name : String)
  | either (a b : Shape)
  | both (a b : Shape)

namespace Shape

/-- An integer that fits in 32 bits with its sign. -/
def signed : Shape := .integer (-0x80000000) 0x80000000

/-- An integer that fits in 32 bits without a sign. -/
def unsigned : Shape := .integer 0 0x100000000

/-- The name that a client gives to a task: an integer or a text. -/
def taskName : Shape := .either signed .text

/-- Whether a name is meant by the name of a member. -/
def names (name : String) (key : Text) : Bool := (utf8 name).equalFold key

mutual

/-- Whether a value has a shape. -/
def admits : Shape → JsonValue → Bool
  | .having name, .object members => members.any fun (key, _) => names name key
  | .having _, _ => false
  | .both a b, value => a.admits value && b.admits value
  | .either a b, value => a.admits value || b.admits value
  | _, .null => true
  | .any, _ => true
  | .truth, .bool _ => true
  | .integer lo hi, .number digits 0 => lo ≤ digits && digits < hi
  | .text, .string _ => true
  | .list item, .array items => items.all item.admits
  | .record shapes, .object members => admitsMembers shapes members
  | _, _ => false

/-- Whether the members of an object have the shapes that go with their names. -/
def admitsMembers : List (String × Shape) → List (Text × JsonValue) → Bool
  | [], _ => true
  | (name, shape) :: shapes, members =>
    (members.all fun (key, value) => !names name key || shape.admits value) &&
      admitsMembers shapes members

end

end Shape

end CMakeSense.Editor
