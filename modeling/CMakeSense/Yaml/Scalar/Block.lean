import CMakeSense.Yaml.Scalar.Gap

/-! Block scalars: indented lines below an indicator. The first line with text sets the indentation
unless the indicator does. A literal scalar keeps its line breaks, and a folded one reads a line
break between two lines that do not begin with a blank as a space. The line breaks at the end are
stripped, clipped to one or kept. -/

namespace CMakeSense.Yaml

/-- What becomes of the line breaks at the end. -/
inductive Chomping where
  | strip | clip | keep
  deriving DecidableEq, Repr

/-- Reads the mark of a chomping. -/
def cutChomping (c : Cursor) : Chomping × Cursor :=
  if c.isAt '+' then (.keep, c.skip) else if c.isAt '-' then (.strip, c.skip) else (.clip, c)

/-- Reads a digit that sets the indentation; zero when there is none. -/
def readIncrement (start : Mark) (c : Cursor) : Except Error (Nat × Cursor) :=
  match c.peek? with
  | some digit =>
    if digit = '0' then fail .zeroIndentation start c
    else if digit.isDigit then .ok (digit.toNat - 0x30, c.skip)
    else .ok (0, c)
  | none => .ok (0, c)

/-- Reads the two marks after an indicator, which come in either order. -/
def readBlockMarks (start : Mark) (c : Cursor) : Except Error (Chomping × Nat × Cursor) := do
  let (chomping, c) := cutChomping c
  let (increment, c) ← readIncrement start c
  if chomping = .clip && increment ≠ 0 then
    let (chomping, c) := cutChomping c
    return (chomping, increment, c)
  else return (chomping, increment, c)

/-- Reads what is left of the line of an indicator. -/
def readBlockLineEnd (start : Mark) (c : Cursor) : Except Error Cursor :=
  let c := c.skipWhile isBlank
  let c := if c.isAt '#' then c.skipToLineEnd else c
  if c.isAtLineEnd then .ok c.skipLine else fail .missingCommentOrBreak start c

/-- Reads empty lines and the indentation of the line after them: the greatest column that was met,
what the line breaks are read as, the last one first, and the cursor. An indentation of zero is not
known yet. -/
def readBreaks (start : Mark) (indent : Nat) :
    Nat → Nat → List Char → Cursor → Except Error (Nat × List Char × Cursor)
  | 0, most, acc, c => .ok (most, acc, c)
  | fuel + 1, most, acc, c =>
    let spaces := (c.takeWhile (· = ' ')).length
    let c := c.skipMany (if indent = 0 then spaces else min spaces (indent - c.mark.column))
    let most := max most c.mark.column
    if c.isAt '\t' && (indent = 0 || c.mark.column < indent) then fail .tabInIndentation start c
    else if c.isAtBreak then readBreaks start indent fuel most (c.breakText ++ acc) c.skipLine
    else .ok (most, acc, c)

/-- The lines of a block scalar so far. The parts have their last character first. -/
structure BlockLines where
  characters : List Char
  /-- What the line break after the last line is read as. -/
  first : List Char
  /-- What the line breaks after that one are read as. -/
  more : List Char
  /-- Whether the last line begins with a blank. -/
  isBlank : Bool

/-- Appends the line at the cursor to its indentation, and passes it with its line break. -/
def BlockLines.push (literal : Bool) (lines : BlockLines) (c : Cursor) : BlockLines × Cursor :=
  let begins := c.sees Yaml.isBlank
  let folds := !literal && !lines.isBlank && !begins && lines.first = ['\n']
  let joint :=
    if !folds then lines.more ++ lines.first else if lines.more.isEmpty then [' '] else lines.more
  let line := c.takeWhile (!isBreak ·)
  let c := c.skipMany line.length
  (⟨line.reverse ++ (joint ++ lines.characters), c.breakText, [], begins⟩, c.skipLine)

/-- Reads lines with a given indentation. Every step takes a character, so `fuel` is enough when it
is more than their number. -/
def readBlockFrom (literal : Bool) (start : Mark) (indent : Nat) :
    Nat → BlockLines → Cursor → Except Error (BlockLines × Cursor)
  | 0, lines, c => .ok (lines, c)
  | fuel + 1, lines, c =>
    if c.mark.column ≠ indent || c.isAtEnd then .ok (lines, c)
    else do
      let (lines, c) := lines.push literal c
      let (_, more, c) ← readBreaks start indent fuel 0 [] c
      readBlockFrom literal start indent fuel { lines with more } c

/-- The characters of a block scalar, the last one first. -/
def BlockLines.chomp (chomping : Chomping) (lines : BlockLines) : List Char :=
  match chomping with
  | .strip => lines.characters
  | .clip => lines.first ++ lines.characters
  | .keep => lines.more ++ lines.first ++ lines.characters

/-- Reads a literal or folded scalar below a parent whose indentation is `parent?`, in a file with
at most `size` characters. The cursor is at the indicator. -/
def readBlock (size : Nat) (literal : Bool) (parent? : Option Nat) (c : Cursor) :
    Except Error (Text × Cursor) := do
  let start := c.mark
  let (chomping, increment, c) ← readBlockMarks start c.skip
  let c ← readBlockLineEnd start c
  let given := if increment = 0 then 0 else parent?.getD 0 + increment
  let (most, more, c) ← readBreaks start given (size + 1) 0 [] c
  let least := match parent? with
    | some parent => parent + 1
    | none => 1
  let indent := if given = 0 then max most least else given
  let (lines, c) ← readBlockFrom literal start indent (size + 1) ⟨[], [], more, false⟩ c
  return (textOf (lines.chomp chomping).reverse, c)

end CMakeSense.Yaml
