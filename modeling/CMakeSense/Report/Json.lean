import CMakeSense.Text.Numeral
import CMakeSense.Text.Utf8

/-! JSON values and their indented writing. Object members keep the order in which they are
listed. Characters that are special in HTML and the two line separators outside ASCII are escaped
along with quotes, backslashes and controls; a stray byte is written as the replacement
character. -/

namespace CMakeSense

/-- A JSON value. A number is given by its digits and the number of its decimal places. -/
inductive JsonValue where
  | null
  | bool (value : Bool)
  | number (digits : Int) (places : Nat)
  | string (text : Text)
  | array (items : List JsonValue)
  | object (members : List (Text × JsonValue))
  deriving Inhabited

namespace JsonValue

def int (n : Int) : JsonValue := .number n 0

def texts (ts : List Text) : JsonValue := .array (ts.map .string)

/-- An object with named members. -/
def record (members : List (String × JsonValue)) : JsonValue :=
  .object (members.map fun (name, value) => (utf8 name, value))

/-- The escapes of two bytes. -/
def shortEscapes : List (Nat × Char) :=
  [(8, 'b'), (9, 't'), (10, 'n'), (12, 'f'), (13, 'r'), (34, '"'), (92, '\\')]

/-- The code points that are escaped though they print. -/
def isGuarded (code : Nat) : Bool :=
  code = 0x3c || code = 0x3e || code = 0x26 || code = 0x2028 || code = 0x2029

/-- The writing of a code point inside a string. -/
def escape (code : Nat) : Text :=
  match shortEscapes.lookup code with
  | some letter => [Ascii.backslash, letter.toNat.toUInt8]
  | none =>
    if code < 0x20 || isGuarded code then utf8 "\\u" ++ Numeral.hex 4 code
    else Utf8.encode code

def quote (text : Text) : Text :=
  Ascii.quote :: (Utf8.items text).flatMap (fun item => escape item.code) ++ [Ascii.quote]

/-- A line end and the indentation of the next line. -/
def lineBreak (depth : Nat) : Text := Ascii.newline :: List.replicate (2 * depth) Ascii.space

/-- The writing of a number. -/
def renderNumber (digits : Int) (places : Nat) : Text :=
  if places = 0 then Numeral.decimalInt digits
  else
    let body := Numeral.decimal digits.natAbs
    let padded := List.replicate (places + 1 - body.length) 0x30 ++ body
    (if digits < 0 then [Ascii.hyphen] else []) ++ padded.take (padded.length - places) ++
      Ascii.dot :: padded.drop (padded.length - places)

mutual

/-- The indented writing of a value at a depth of nesting. -/
def render (depth : Nat) : JsonValue → Text
  | .null => utf8 "null"
  | .bool true => utf8 "true"
  | .bool false => utf8 "false"
  | .number digits places => renderNumber digits places
  | .string text => quote text
  | .array [] => utf8 "[]"
  | .array (item :: items) =>
    Ascii.openBracket :: lineBreak (depth + 1) ++ render (depth + 1) item ++
      renderItems (depth + 1) items ++ lineBreak depth ++ [Ascii.closeBracket]
  | .object [] => [Ascii.openBrace, Ascii.closeBrace]
  | .object ((name, value) :: members) =>
    Ascii.openBrace :: lineBreak (depth + 1) ++ quote name ++ utf8 ": " ++
      render (depth + 1) value ++ renderMembers (depth + 1) members ++ lineBreak depth ++
      [Ascii.closeBrace]

/-- The items after the first one, each after a comma on a line of its own. -/
def renderItems (depth : Nat) : List JsonValue → Text
  | [] => []
  | item :: items => utf8 "," ++ lineBreak depth ++ render depth item ++ renderItems depth items

/-- The members after the first one, each after a comma on a line of its own. -/
def renderMembers (depth : Nat) : List (Text × JsonValue) → Text
  | [] => []
  | (name, value) :: members =>
    utf8 "," ++ lineBreak depth ++ quote name ++ utf8 ": " ++ render depth value ++
      renderMembers depth members

end

end JsonValue

end CMakeSense
