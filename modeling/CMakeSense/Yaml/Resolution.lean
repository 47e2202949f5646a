import CMakeSense.Text.Decimal
import CMakeSense.Text.Timestamp

/-! What a scalar without a tag is: no value, a truth value, a number, a point in time, or else
text. -/

namespace CMakeSense.Yaml

inductive Kind where
  | null | boolean
  /-- A whole number, and whether it fits in 64 bits with its sign. -/
  | integer (fits : Bool)
  | float | timestamp | text
  deriving DecidableEq, Repr

/-- What the tags of the language begin with in their short form. -/
def shortTag (name : String) : Text := utf8 "!!" ++ utf8 name

namespace Kind

/-- The tag of a kind. -/
def tag : Kind → Text
  | .null => shortTag "null"
  | .boolean => shortTag "bool"
  | .integer _ => shortTag "int"
  | .float => shortTag "float"
  | .timestamp => shortTag "timestamp"
  | .text => shortTag "str"

/-- Words that stand for values. -/
def words : List (Text × Kind) :=
  ["", "~", "null", "Null", "NULL"].map (utf8 ·, .null) ++
    ["true", "True", "TRUE", "false", "False", "FALSE"].map (utf8 ·, .boolean) ++
    [".nan", ".NaN", ".NAN", ".inf", ".Inf", ".INF", "+.inf", "+.Inf", "+.INF", "-.inf", "-.Inf",
      "-.INF"].map (utf8 ·, .float)

/-- Whether a text is `0b` or `0o` with a number of that base, which has a sign of its own. -/
def isSignedInBase : Text → Bool
  | 0x30 :: mark :: digits =>
    (mark = 0x62 && (Numeral.readInBase 2 digits).isOk) ||
      (mark = 0x6f && (Numeral.readInBase 8 digits).isOk)
  | _ => false

/-- The kind of a text that begins with a sign or a digit. Underscores are passed over. -/
def ofNumber (t : Text) : Kind :=
  let t := t.filter (· ≠ Ascii.underscore)
  if (Numeral.readLiteral t).isOk then .integer true
  else if (Numeral.readUnsigned t).isOk then .integer false
  else if Decimal.isNumber (Numeral.cutSign t).2 then .float
  else if isSignedInBase t then .integer true
  else .text

/-- The kind of a text. Points in time are recognised where they are looked for. -/
def ofText (withTime : Bool) (t : Text) : Kind :=
  match words.lookup t, t.head? with
  | some kind, _ => kind
  | none, none => .null
  | none, some first =>
    if first = Ascii.dot then if Decimal.isNumber t then .float else .text
    else if Ascii.isDigit first || first = Ascii.plus || first = Ascii.hyphen then
      if withTime && Timestamp.isTimestamp t then .timestamp else ofNumber t
    else .text

/-- The kinds that a tag asks for. -/
def tagged : List (Text × Kind) :=
  [Kind.null, .boolean, .integer true, .float, .timestamp].map fun kind => (kind.tag, kind)

/-- Whether a scalar of a kind is one of the kind that a tag asks for. A whole number can stand for
a floating-point number. -/
def serves (found wanted : Kind) : Bool :=
  found.tag = wanted.tag || (found = .integer true && wanted = .float)

end Kind

end CMakeSense.Yaml
