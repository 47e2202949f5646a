import CMakeSense.Yaml.Property

/-! Directives: lines that begin with a percent sign and say what version of the language a document
is written in, or what a handle of tags stands for. -/

namespace CMakeSense.Yaml

/-- Reads the name of a directive. -/
def readDirectiveName (start : Mark) (c : Cursor) : Except Error (List Char × Cursor) :=
  let name := c.takeWhile isNameChar
  let after := c.skipWhile isNameChar
  if name.isEmpty then fail .missingDirectiveName start after
  else if after.isAtGap then .ok (name, after)
  else fail .badDirectiveName start after

/-- The greatest number of digits in a number of a version. -/
def versionDigits : Nat := 2

/-- Reads a number of a version. -/
def readVersionNumber (start : Mark) (c : Cursor) : Except Error (Nat × Cursor) :=
  let digits := c.takeWhile Char.isDigit
  if versionDigits < digits.length then fail .longVersion start (c.skipMany versionDigits)
  else if digits.isEmpty then fail .missingVersion start c
  else .ok (digits.foldl (fun n d => 10 * n + (d.toNat - 0x30)) 0, c.skipMany digits.length)

/-- Reads the version that a directive names. -/
def readVersion (start : Mark) (c : Cursor) : Except Error (TokenKind × Cursor) := do
  let (major, c) ← readVersionNumber start (c.skipWhile isBlank)
  if !c.isAt '.' then fail .missingPoint start c
  let (minor, c) ← readVersionNumber start c.skip
  return (.versionDirective major minor, c)

/-- Reads a handle and the beginning of URIs that it stands for. -/
def readHandle (start : Mark) (c : Cursor) : Except Error (TokenKind × Cursor) := do
  let c := c.skipWhile isBlank
  if !c.isAt '!' then fail .missingExclamation start c
  let (handle, c) := cutHandle c
  if !isHandle handle && handle ≠ exclamation then fail .missingExclamation start c
  if !c.sees isBlank then fail .missingGap start c
  let (uri, c) ← readSomeUri start (c.skipWhile isBlank)
  if !c.isAtGap then fail .missingGapOrBreak start c
  return (.tagDirective handle uri, c)

/-- Reads a directive with its line. -/
def readDirective (c : Cursor) : Except Error (TokenKind × Cursor) := do
  let start := c.mark
  let (name, c) ← readDirectiveName start c.skip
  let (kind, c) ←
    if name = "YAML".toList then readVersion start c
    else if name = "TAG".toList then readHandle start c
    else fail .unknownDirective start c
  let c := c.skipWhile isBlank
  let c := if c.isAt '#' then c.skipToLineEnd else c
  if c.isAtLineEnd then return (kind, c.skipLine) else fail .missingCommentOrBreak start c

end CMakeSense.Yaml
