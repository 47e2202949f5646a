import CMakeSense.Yaml.Scalar.Gap

/-! Plain scalars: words without quotes. A colon before a gap ends one, a comment after a gap, a
line that is indented less, and the mark of a document; inside brackets and braces, the indicators
of these do too. -/

namespace CMakeSense.Yaml

/-- The indicators that end a plain scalar inside brackets and braces. -/
def flowEnds : List Char := ",?[]\x7b\x7d".toList

/-- Reads a word up to a gap or the end of the scalar. `acc` holds the characters so far, the last
one first. -/
def readPlainWord (flow : Bool) : Nat → List Char → Cursor → List Char × Cursor
  | 0, acc, c => (acc, c)
  | fuel + 1, acc, c =>
    match c.rest with
    | [] => (acc, c)
    | char :: rest =>
      if isBlankOrBreak char || (char = ':' && rest.head?.all isBlankOrBreak) ||
          (flow && flowEnds.contains char) then (acc, c)
      else readPlainWord flow fuel (char :: acc) c.skip

/-- A plain scalar that has been read. -/
structure Plain where
  /-- The characters, the last one first. -/
  characters : List Char
  /-- Whether a line break follows the last word. -/
  isBroken : Bool
  cursor : Cursor

/-- Reads words and the gaps between them. In a block, every line has to be indented to the column
`least`. Every step takes a character, so `fuel` is enough when it is more than their number. -/
def readPlainFrom (flow : Bool) (least : Nat) (start : Mark) :
    Nat → List Char → Gap → Cursor → Except Error Plain
  | 0, acc, gap, c => .ok ⟨acc, gap.isBroken, c⟩
  | fuel + 1, acc, gap, c =>
    if c.isAtDocumentIndicator || c.isAt '#' then .ok ⟨acc, gap.isBroken, c⟩
    else
      let (word, after) := readPlainWord flow fuel [] c
      let (acc, gap) :=
        if word.isEmpty then (acc, gap) else (word ++ (gap.reading ++ acc), Gap.empty)
      if !after.sees isBlankOrBreak then .ok ⟨acc, gap.isBroken, after⟩
      else do
        let (gap, next) ← Gap.read start least fuel gap after
        if !flow && next.mark.column < least then return ⟨acc, gap.isBroken, next⟩
        readPlainFrom flow least start fuel acc gap next

/-- Reads a plain scalar of a file with at most `size` characters: its text, whether a line break
follows it, and the cursor. -/
def readPlain (size : Nat) (flow : Bool) (least : Nat) (c : Cursor) :
    Except Error (Text × Bool × Cursor) :=
  (readPlainFrom flow least c.mark (size + 1) [] Gap.empty c).map fun plain =>
    (textOf plain.characters.reverse, plain.isBroken, plain.cursor)

end CMakeSense.Yaml
