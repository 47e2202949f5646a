import CMakeSense.Yaml.Property

/-! The gaps between the words of a plain or quoted scalar. Blanks inside a line stand for
themselves, and around a line break they are dropped. A line break is read as a space, and when
others follow it, it is dropped and the others are kept. The separators of lines and paragraphs are
always kept. -/

namespace CMakeSense.Yaml

/-- What stands between two words. The parts of a gap have their last character first. -/
structure Gap where
  blanks : List Char
  /-- What the first line break is read as. -/
  first : List Char
  /-- What the line breaks after the first one are read as. -/
  more : List Char
  /-- Whether there is a line break, be it an escaped one that is not read. -/
  isBroken : Bool
  deriving DecidableEq, Repr

namespace Gap

def empty : Gap := ⟨[], [], [], false⟩

/-- The gap after an escaped line break. -/
def escaped : Gap := ⟨[], [], [], true⟩

/-- What a gap is read as, the last character first. -/
def reading (gap : Gap) : List Char :=
  if !gap.isBroken then gap.blanks
  else if gap.first = ['\n'] then if gap.more.isEmpty then [' '] else gap.more
  else gap.more ++ gap.first

/-- Passes the blanks and line breaks of a gap. In a scalar that begins at `start`, a tab must not
be in front of the column `least` of a new line. -/
def read (start : Mark) (least : Nat) : Nat → Gap → Cursor → Except Error (Gap × Cursor)
  | 0, gap, c => .ok (gap, c)
  | fuel + 1, gap, c =>
    match c.peek? with
    | none => .ok (gap, c)
    | some char =>
      if isBlank char then
        if !gap.isBroken then
          read start least fuel { gap with blanks := char :: gap.blanks } c.skip
        else if char = '\t' && c.mark.column < least then fail .tabBeforeText start c
        else read start least fuel gap c.skip
      else if isBreak char then
        let gap :=
          if gap.isBroken then { gap with more := c.breakText ++ gap.more }
          else ⟨[], c.breakText, [], true⟩
        read start least fuel gap c.skipLine
      else .ok (gap, c)

end Gap

end CMakeSense.Yaml
