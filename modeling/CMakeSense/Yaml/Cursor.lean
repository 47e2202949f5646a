import CMakeSense.Text.Utf8
import CMakeSense.Yaml.Input

/-! Places in the characters of a YAML file. A cursor stands before a character and knows its line
and column. There are five line breaks: carriage return, line feed, the two together, next line, and
the line and paragraph separators. -/

namespace CMakeSense.Yaml

/-- A place: how many characters precede it, and its line and column, all counted from zero. -/
structure Mark where
  index : Nat
  line : Nat
  column : Nat
  deriving DecidableEq, Repr

def isBlank (c : Char) : Bool := c = ' ' || c = '\t'

def isBreak (c : Char) : Bool :=
  c = '\r' || c = '\n' || c = '\u0085' || c = '\u2028' || c = '\u2029'

def isBlankOrBreak (c : Char) : Bool := isBlank c || isBreak c

/-- The characters of names: letters, digits, the underscore and the hyphen. -/
def isNameChar (c : Char) : Bool := c.isAlphanum || c = '_' || c = '-'

/-- The number that a hexadecimal digit stands for. -/
def hexValue? (c : Char) : Option Nat :=
  if c.isDigit then some (c.toNat - 0x30)
  else if 'a' ≤ c && c ≤ 'f' then some (c.toNat - 0x57)
  else if 'A' ≤ c && c ≤ 'F' then some (c.toNat - 0x37)
  else none

/-- The UTF-8 bytes of characters. -/
def textOf (characters : List Char) : Text := characters.flatMap fun c => Utf8.encode c.toNat

/-- A place with the characters from there on. -/
structure Cursor where
  rest : List Char
  mark : Mark
  /-- How many line breaks have been passed since the last character that is no blank. -/
  breaks : Nat
  deriving DecidableEq, Repr

namespace Cursor

def start (characters : List Char) : Cursor := ⟨characters, ⟨0, 0, 0⟩, 0⟩

/-- The next character. -/
def peek? (c : Cursor) : Option Char := c.rest.head?

/-- Whether the next character has a property. There is none at the end. -/
def sees (c : Cursor) (p : Char → Bool) : Bool := c.rest.head?.any p

def isAt (c : Cursor) (char : Char) : Bool := c.sees (· = char)

def isAtEnd (c : Cursor) : Bool := c.rest.isEmpty

def isAtBreak (c : Cursor) : Bool := c.sees isBreak

/-- Whether a blank, a line break or the end comes next. -/
def isAtGap (c : Cursor) : Bool := c.isAtEnd || c.sees isBlankOrBreak

/-- Whether a line break or the end comes next. -/
def isAtLineEnd (c : Cursor) : Bool := c.isAtEnd || c.isAtBreak

/-- Passes one character, which is no line break. -/
def skip (c : Cursor) : Cursor :=
  match c.rest with
  | [] => c
  | char :: rest =>
    ⟨rest, { c.mark with index := c.mark.index + 1, column := c.mark.column + 1 },
      if isBlank char then c.breaks else 0⟩

/-- Passes characters that are no line breaks. -/
def skipMany : Nat → Cursor → Cursor
  | 0, c => c
  | k + 1, c => skipMany k c.skip

/-- Passes the line break that comes next, if one does. -/
def skipLine (c : Cursor) : Cursor :=
  match c.rest with
  | '\r' :: '\n' :: rest => ⟨rest, ⟨c.mark.index + 2, c.mark.line + 1, 0⟩, c.breaks + 1⟩
  | char :: rest =>
    if isBreak char then ⟨rest, ⟨c.mark.index + 1, c.mark.line + 1, 0⟩, c.breaks + 1⟩ else c
  | [] => c

/-- What the line break that comes next is read as: the separators stand for themselves, and the
others for a line feed. -/
def breakText (c : Cursor) : List Char :=
  match c.rest with
  | char :: _ =>
    if char = '\u2028' || char = '\u2029' then [char] else if isBreak char then ['\n'] else []
  | [] => []

/-- Passes the characters up to the first that lacks a property, none of which is a line break. -/
def skipWhile (p : Char → Bool) (c : Cursor) : Cursor := skipMany (c.rest.takeWhile p).length c

/-- The characters up to the first that lacks a property. -/
def takeWhile (p : Char → Bool) (c : Cursor) : List Char := c.rest.takeWhile p

/-- Passes what is left of a line. -/
def skipToLineEnd (c : Cursor) : Cursor := c.skipWhile (!isBreak ·)

/-- Passes characters and line breaks up to an index. `fuel` bounds their number. -/
def skipToIndex (index : Nat) : Nat → Cursor → Cursor
  | 0, c => c
  | fuel + 1, c =>
    if index ≤ c.mark.index then c
    else skipToIndex index fuel (if c.isAtBreak then c.skipLine else c.skip)

/-- Whether a line begins here with three given characters that nothing but a gap follows. -/
def isAtIndicator (c : Cursor) (char : Char) : Bool :=
  c.mark.column = 0 &&
    match c.rest with
    | x :: y :: z :: rest =>
      x = char && y = char && z = char && (rest.isEmpty || rest.head?.any isBlankOrBreak)
    | _ => false

/-- Whether the beginning or the end of a document is marked here. -/
def isAtDocumentIndicator (c : Cursor) : Bool := c.isAtIndicator '-' || c.isAtIndicator '.'

/-! ### Comments -/

/-- How far a cursor looks ahead for a comment. -/
def commentReach : Nat := 512

/-- Passes the comment on this line, if nothing but blanks precedes it and no line break has been
passed since the last character that is no blank. -/
def skipLineComment (c : Cursor) : Cursor :=
  let blanks := (c.rest.takeWhile isBlank).length
  if c.breaks = 0 && blanks < commentReach && (c.rest.drop blanks).head? = some '#' then
    c.skipToLineEnd
  else c

/-- How far away the comment is that begins one of the next lines, where nothing but blanks and
simple line breaks is before it. -/
def nextComment? (c : Cursor) : Option Nat :=
  match c.rest with
  | char :: rest =>
    if char = '\r' || char = '\n' then
      let between := (rest.takeWhile fun x => isBlank x || x = '\r' || x = '\n').length + 1
      if between < commentReach && (c.rest.drop between).head? = some '#' then some between
      else none
    else none
  | [] => none

/-- Passes a comment, and those that follow it on lines of their own. The lines between them may be
indented by tabs. `fuel` bounds the number of comments. -/
def skipComments : Nat → Cursor → Cursor
  | 0, c => c
  | fuel + 1, c =>
    let c := c.skipToLineEnd
    match c.nextComment? with
    | some distance =>
      skipComments fuel (c.skipToIndex (c.mark.index + distance) distance)
    | none => c

end Cursor

end CMakeSense.Yaml
