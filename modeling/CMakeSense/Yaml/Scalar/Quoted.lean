import CMakeSense.Yaml.Scalar.Gap

/-! Scalars in quotes. Between single quotes, two of them stand for one. Between double quotes a
backslash begins an escape: a letter that stands for a character, the code of a character in
hexadecimal digits, or a line break that is not read. -/

namespace CMakeSense.Yaml

def singleQuote : Char := '\x27'

def doubleQuote : Char := '\x22'

def backslash : Char := '\x5c'

/-- The escapes of a single letter, with what they stand for. -/
def escapes : List (Char × Nat) :=
  "0abt\tnvfre \"'\\N_LP".toList.zip
    [0, 7, 8, 9, 9, 10, 11, 12, 13, 27, 32, 34, 39, 92, 0x85, 0xa0, 0x2028, 0x2029]

/-- The letters that the code of a character follows, with the number of its digits. -/
def codeEscapes : List (Char × Nat) := [('x', 2), ('u', 4), ('U', 8)]

/-- Reads the code of a character in a number of hexadecimal digits. -/
def readCode (start : Mark) (count : Nat) (c : Cursor) : Except Error (Char × Cursor) :=
  let digits := (c.rest.take count).map hexValue?
  if digits.length < count || digits.contains none then fail .missingHex start c
  else
    let code := digits.foldl (fun n digit => 16 * n + digit.getD 0) 0
    if 0x10ffff < code || (0xd800 ≤ code && code ≤ 0xdfff) then fail .badEscapedCharacter start c
    else .ok (Char.ofNat code, c.skipMany count)

/-- Reads an escape after its backslash, where the cursor is. -/
def readEscape (start : Mark) (c : Cursor) : Except Error (Char × Cursor) :=
  match c.skip.peek? with
  | none => fail .unknownEscape start c
  | some letter =>
    match escapes.lookup letter, codeEscapes.lookup letter with
    | some code, _ => .ok (Char.ofNat code, c.skipMany 2)
    | none, some count => readCode start count (c.skipMany 2)
    | none, none => fail .unknownEscape start c

/-- Reads characters up to a gap or the closing quote: the characters, the last one first, whether
they end in an escaped line break, and the cursor. -/
def readQuotedWord (single : Bool) (start : Mark) :
    Nat → List Char → Cursor → Except Error (List Char × Bool × Cursor)
  | 0, acc, c => .ok (acc, false, c)
  | fuel + 1, acc, c =>
    match c.rest with
    | [] => .ok (acc, false, c)
    | char :: rest =>
      if isBlankOrBreak char then .ok (acc, false, c)
      else if single then
        if char ≠ singleQuote then readQuotedWord single start fuel (char :: acc) c.skip
        else if rest.head? = some singleQuote then
          readQuotedWord single start fuel (char :: acc) (c.skipMany 2)
        else .ok (acc, false, c)
      else if char = doubleQuote then .ok (acc, false, c)
      else if char ≠ backslash then readQuotedWord single start fuel (char :: acc) c.skip
      else if rest.head?.any isBreak then .ok (acc, true, c.skip.skipLine)
      else
        match readEscape start c with
        | .error error => .error error
        | .ok (char, c) => readQuotedWord single start fuel (char :: acc) c

/-- Reads words and the gaps between them up to the closing quote. Every step takes a character, so
`fuel` is enough when it is more than their number. -/
def readQuotedFrom (single : Bool) (start : Mark) :
    Nat → List Char → Cursor → Except Error (List Char × Cursor)
  | 0, _, c => fail .endInside start c
  | fuel + 1, acc, c =>
    if c.isAtDocumentIndicator then fail .documentInside start c
    else if c.isAtEnd then fail .endInside start c
    else
      match readQuotedWord single start fuel acc c with
      | .error error => .error error
      | .ok (acc, isEscaped, c) =>
        if c.isAt (if single then singleQuote else doubleQuote) then .ok (acc, c.skip)
        else
          match Gap.read start 0 fuel (if isEscaped then Gap.escaped else Gap.empty) c with
          | .error error => .error error
          | .ok (gap, c) => readQuotedFrom single start fuel (gap.reading ++ acc) c

/-- Reads a scalar in single or double quotes in a file with at most `size` characters. The cursor
is at the opening quote. -/
def readQuoted (size : Nat) (single : Bool) (c : Cursor) : Except Error (Text × Cursor) :=
  (readQuotedFrom single c.mark (size + 1) [] c.skip).map fun (acc, c) => (textOf acc.reverse, c)

end CMakeSense.Yaml
