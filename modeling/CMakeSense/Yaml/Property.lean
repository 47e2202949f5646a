import CMakeSense.Yaml.Token

/-! Names and tags. An anchor gives a node a name and an alias refers to it; a tag says what a node
is. A tag is a URI in angle brackets, or a handle that stands for the beginning of a URI and a
suffix; in a URI an octet may be written as a percent sign and two hexadecimal digits. -/

namespace CMakeSense.Yaml

/-- Fails in a token that begins at `start`, with a problem at the cursor. -/
def fail {α : Type} (problem : Problem) (start : Mark) (c : Cursor) : Except Error α :=
  .error (.malformed problem start c.mark)

/-- The indicators that may follow a name without a gap. -/
def nameEnds : List Char := "?:,]\x7d%@\x60".toList

/-- Reads the name after the indicator of an anchor or an alias. -/
def readName (c : Cursor) : Except Error (Text × Cursor) :=
  let name := c.skip.takeWhile isNameChar
  let after := c.skip.skipWhile isNameChar
  if !name.isEmpty && (after.isAtGap || after.sees nameEnds.contains) then .ok (textOf name, after)
  else fail .badName c.mark after

/-! ### URIs -/

/-- The marks of URIs. -/
def uriMarks : List Char := ";/?:@&=+$,.!~*'()[]%".toList

def isUriChar (c : Char) : Bool := isNameChar c || uriMarks.contains c

/-- The octet that is written with hexadecimal digits here. -/
def escapedOctet? (c : Cursor) : Option UInt8 :=
  match c.rest with
  | '%' :: a :: b :: _ => do
    let high ← hexValue? a
    let low ← hexValue? b
    some (16 * high + low).toUInt8
  | _ => none

/-- Reads the octets of an escaped UTF-8 sequence after the first one. `acc` holds the octets so
far, the last one first. -/
def readEscapedTrail (start : Mark) : Nat → Text → Cursor → Except Error (Text × Cursor)
  | 0, acc, c => .ok (acc, c)
  | k + 1, acc, c =>
    match escapedOctet? c with
    | none => fail .badEscapedOctet start c
    | some octet =>
      if Encoding.isTrail octet then readEscapedTrail start k (octet :: acc) (c.skipMany 3)
      else fail .badEscapedTrail start c

/-- Reads an escaped UTF-8 sequence. -/
def readEscaped (start : Mark) (acc : Text) (c : Cursor) : Except Error (Text × Cursor) :=
  match escapedOctet? c with
  | none => fail .badEscapedOctet start c
  | some octet =>
    match Encoding.lead? octet with
    | none => fail .badEscapedLead start c
    | some (width, _) => readEscapedTrail start (width - 1) (octet :: acc) (c.skipMany 3)

/-- Reads the characters of a URI, `fuel` of them at most. `acc` holds the octets so far, the last
one first. -/
def readUriFrom (start : Mark) : Nat → Text → Cursor → Except Error (Text × Cursor)
  | 0, acc, c => .ok (acc, c)
  | fuel + 1, acc, c =>
    match c.peek? with
    | none => .ok (acc, c)
    | some char =>
      if char = '%' then
        (readEscaped start acc c).bind fun (acc, c) => readUriFrom start fuel acc c
      else if isUriChar char then readUriFrom start fuel (char.toNat.toUInt8 :: acc) c.skip
      else .ok (acc, c)

/-- Reads a URI, which may be empty. -/
def readUri (start : Mark) (c : Cursor) : Except Error (Text × Cursor) :=
  (readUriFrom start (c.takeWhile isUriChar).length [] c).map fun (acc, c) => (acc.reverse, c)

/-- Reads a URI that is not empty. -/
def readSomeUri (start : Mark) (c : Cursor) : Except Error (Text × Cursor) := do
  let (uri, after) ← readUri start c
  if uri.isEmpty then fail .missingUri start after else return (uri, after)

/-! ### Tags -/

/-- The exclamation mark alone. -/
def exclamation : Text := utf8 "!"

/-- An exclamation mark with a name after it, and the second exclamation mark if there is one. -/
def cutHandle (c : Cursor) : Text × Cursor :=
  let name := exclamation ++ textOf (c.skip.takeWhile isNameChar)
  let after := c.skip.skipWhile isNameChar
  if after.isAt '!' then (name ++ exclamation, after.skip) else (name, after)

/-- Whether a text of `cutHandle` has its second exclamation mark. -/
def isHandle (t : Text) : Bool := 1 < t.length && t.getLast? = exclamation.head?

/-- Reads what a tag is: a handle and a suffix. The handle of a whole URI is empty. A lone
exclamation mark is a whole URI of its own. -/
def readTagParts (c : Cursor) : Except Error ((Text × Text) × Cursor) := do
  let start := c.mark
  if c.skip.isAt '<' then
    let (uri, after) ← readSomeUri start (c.skipMany 2)
    if after.isAt '>' then return (([], uri), after.skip) else fail .missingAngle start after
  else
    let (handle, after) := cutHandle c
    if isHandle handle then
      let (suffix, after) ← readSomeUri start after
      return ((handle, suffix), after)
    else
      let (rest, after) ← readUri start after
      let suffix := handle.drop 1 ++ rest
      return (if suffix.isEmpty then ([], exclamation) else (exclamation, suffix), after)

/-- Reads a tag. A gap has to follow it. -/
def readTag (c : Cursor) : Except Error ((Text × Text) × Cursor) := do
  let (tag, after) ← readTagParts c
  if after.isAtGap then return (tag, after) else fail .missingGapOrBreak c.mark after

end CMakeSense.Yaml
