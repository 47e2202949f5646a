import CMakeSense.Catalog.Command
import CMakeSense.Token.Trigger

/-! Tokens: classified runs of bytes on one line. -/

namespace CMakeSense

/-- What a token is. -/
inductive TokenKind where
  | other | keyword | identifier | openParen | closeParen | whiteSpace
  | variableStart | variableStartEnv | variableStartCache | stringLiteral | comment
  deriving DecidableEq, Repr

namespace TokenKind

/-- The kinds in the order of their numbers, which start at zero. -/
def all : List TokenKind :=
  [.other, .keyword, .identifier, .openParen, .closeParen, .whiteSpace, .variableStart,
    .variableStartEnv, .variableStartCache, .stringLiteral, .comment]

def label : TokenKind → Text
  | .other => utf8 "Other"
  | .keyword => utf8 "Keyword"
  | .identifier => utf8 "Identifier"
  | .openParen => utf8 "OpenParen"
  | .closeParen => utf8 "CloseParen"
  | .whiteSpace => utf8 "WhiteSpace"
  | .variableStart => utf8 "VariableStart"
  | .variableStartEnv => utf8 "VariableStartEnv"
  | .variableStartCache => utf8 "VariableStartCache"
  | .stringLiteral => utf8 "StringLiteral"
  | .comment => utf8 "Comment"

def ofLabel? (label : Text) : Option TokenKind := all.find? (·.label == label)

/-- Words: the tokens that can name a command. -/
def isWord (kind : TokenKind) : Bool := kind = .keyword || kind = .identifier

end TokenKind

/-- A stretch of a line from the byte offset `start` up to, but not including, `stop`. -/
structure ByteRange where
  start : Int
  stop : Int

namespace ByteRange

/-- The bytes in the range. A range that does not lie within the line has none. -/
def text (range : ByteRange) (line : Text) : Text :=
  if range.start < 0 || range.stop > line.length || range.start > range.stop then []
  else (line.drop range.start.toNat).take (range.stop - range.start).toNat

def contains (range : ByteRange) (column : Int) : Bool :=
  range.start ≤ column && column < range.stop

end ByteRange

/-- A classified run of bytes on one line. `command` is set on keywords. -/
structure Token where
  kind : TokenKind
  start : Nat
  stop : Nat
  trigger : Trigger
  command : Option Command
  deriving DecidableEq, Repr

namespace Token

/-- The number of bytes of a token. -/
def length (token : Token) : Nat := token.stop - token.start

def range (token : Token) : ByteRange := ⟨token.start, token.stop⟩

/-- The bytes of a token of the given line. -/
def text (token : Token) (line : Text) : Text := token.range.text line

/-- Whether a column falls on the token. -/
def contains (token : Token) (column : Int) : Bool := token.range.contains column

end Token

end CMakeSense
