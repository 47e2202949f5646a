import CMakeSense.Yaml.Directive
import CMakeSense.Yaml.Scalar.Block
import CMakeSense.Yaml.Scalar.Plain
import CMakeSense.Yaml.Scalar.Quoted

/-! The tokens of a file as they are asked for. A key that no indicator announces is recognised by
the colon after it, so a token waits in a queue while it can still turn out to begin a key; then the
indicator of the key, and the beginning of a mapping, are put in front of it. In a block, the
beginnings and ends of collections are the changes of the indentation. -/

namespace CMakeSense.Yaml

/-- A token that may begin a key. -/
structure Key where
  /-- Whether a key is still possible. -/
  isPossible : Bool
  /-- Whether nothing but a key can be here. -/
  isRequired : Bool
  /-- Whether its token has to wait until it is known to be a key or not. -/
  waits : Bool
  /-- How many tokens precede it. -/
  number : Nat
  mark : Mark
  deriving DecidableEq, Repr

/-- How many characters a key may have. -/
def keyReach : Nat := 1024

/-- Whether the place is near enough for a colon to end the key: on its line, and not too far. -/
def Key.reaches (key : Key) (place : Mark) : Bool :=
  place.line ≤ key.mark.line && place.index ≤ key.mark.index + keyReach

/-- How deep collections may be nested. -/
def depthLimit : Nat := 10000

structure Stream where
  cursor : Cursor
  /-- The number of characters of the file. -/
  size : Nat
  /-- The fault after the last character. -/
  fault? : Option Fault
  /-- Lines that begin before this index lose their first character. -/
  margin : Nat
  /-- The tokens that wait. -/
  queue : List Token
  /-- How many tokens have been taken. -/
  taken : Nat
  /-- The possible key of the innermost collection. -/
  key : Key
  /-- The possible keys around the brackets and braces that are open, the innermost first. -/
  outer : List Key
  /-- The columns of the block collections that are open, the innermost first. -/
  indents : List Nat
  /-- Whether a key may begin here without an indicator. -/
  keyAllowed : Bool

namespace Stream

def noKey (number : Nat) (mark : Mark) : Key := ⟨false, false, false, number, mark⟩

/-- The tokens of a file. -/
def ofInput (input : Input) : Stream where
  cursor := Cursor.start input.characters
  size := input.characters.length
  fault? := input.fault?
  margin := input.margin
  queue := []
  taken := 0
  key := noKey 0 ⟨0, 0, 0⟩
  outer := []
  indents := []
  keyAllowed := true

/-- Whether a bracket or a brace is open. -/
def isFlow (s : Stream) : Bool := !s.outer.isEmpty

/-- The number of the next token. -/
def nextNumber (s : Stream) : Nat := s.taken + s.queue.length

/-- The column to which the lines of a plain scalar have to be indented. -/
def plainColumn (s : Stream) : Nat :=
  match s.indents with
  | [] => 0
  | column :: _ => column + 1

/-- Fails at the fault when the characters up to an index are needed. -/
def reach (s : Stream) (index : Nat) : Except Error Unit :=
  match s.fault? with
  | some fault => if s.size < index then .error (.unreadable fault) else .ok ()
  | none => .ok ()

/-- Fails with a problem at the cursor in a token that begins at `start`. -/
def refuse {α : Type} (s : Stream) (problem : Problem) (start : Mark) : Except Error α :=
  fail problem start s.cursor

def push (s : Stream) (token : Token) : Stream := { s with queue := s.queue ++ [token] }

/-- Puts a token in front of the one with a number, or at the end if that one has been taken. -/
def insert (s : Stream) (number : Nat) (token : Token) : Stream :=
  if number < s.taken then s.push token
  else
    let place := number - s.taken
    { s with queue := s.queue.take place ++ token :: s.queue.drop place }

/-! ### Possible keys -/

/-- Gives up the possible key. -/
def dropKey (s : Stream) : Except Error Stream :=
  if !s.key.isPossible then .ok s
  else if s.key.isRequired then s.refuse .missingColon s.key.mark
  else .ok { s with key := { s.key with isPossible := false, waits := false } }

/-- Notes that a key may begin with the next token. -/
def saveKey (s : Stream) : Except Error Stream := do
  if !s.keyAllowed then return s
  let isRequired := !s.isFlow && s.indents.head? = some s.cursor.mark.column
  let s ← s.dropKey
  return { s with key := ⟨true, isRequired, true, s.nextNumber, s.cursor.mark⟩ }

/-- Whether a colon at the cursor ends a key. -/
def endsKey (s : Stream) (key : Key) : Except Error Bool :=
  if !key.isPossible then .ok false
  else if key.reaches s.cursor.mark then .ok true
  else if key.isRequired then s.refuse .missingColon key.mark
  else .ok false

/-! ### Nesting -/

/-- Opens a bracket or a brace. -/
def openFlow (s : Stream) : Except Error Stream :=
  let s := { s with outer := s.key :: s.outer, key := noKey s.nextNumber s.cursor.mark }
  if depthLimit < s.outer.length then s.refuse .tooDeep s.key.mark else .ok s

/-- Closes a bracket or a brace. When no key has been possible inside, the token that opened it no
longer waits. -/
def closeFlow (s : Stream) : Stream :=
  match s.outer with
  | [] => s
  | key :: outer =>
    { s with key := if key.number = s.key.number then { key with waits := false } else key, outer }

/-- Opens a block collection at a column, if none is open there. Its token comes before the one with
a number, or at the end. -/
def openBlock (s : Stream) (column : Nat) (number? : Option Nat) (token : Token) :
    Except Error Stream :=
  if s.isFlow || s.indents.head?.any (column ≤ ·) then .ok s
  else
    let s := { s with indents := column :: s.indents }
    if depthLimit < s.indents.length then s.refuse .tooDeep s.key.mark
    else match number? with
      | some number => .ok (s.insert number token)
      | none => .ok (s.push token)

/-- Closes the block collections at the columns with a property, the innermost first. -/
def closeBlocks (s : Stream) (closes : Nat → Bool) (mark : Mark) : Stream :=
  if s.isFlow then s
  else
    let closed := s.indents.takeWhile closes
    { s with
      indents := s.indents.drop closed.length
      queue := s.queue ++ closed.map fun _ => ⟨.blockEnd, mark⟩ }

/-! ### What is between tokens -/

/-- Passes blanks, comments and line breaks: whether a key may begin after them, and the cursor. A
tab is a blank only where no key may begin. Every step takes a line break, so `fuel` is enough when
it is more than the number of characters. -/
def skipBetween (flow : Bool) (margin : Nat) : Nat → Bool → Cursor → Bool × Cursor
  | 0, keyAllowed, c => (keyAllowed, c)
  | fuel + 1, keyAllowed, c =>
    let c := if c.mark.column = 0 && c.mark.index < margin then c.skip else c
    let c := c.skipWhile fun char => char = ' ' || (char = '\t' && (flow || !keyAllowed))
    let c := if c.isAt '#' then c.skipComments fuel else c
    if c.isAtBreak then skipBetween flow margin fuel (keyAllowed || !flow) c.skipLine
    else (keyAllowed, c)

/-- Passes what is in front of the next token. -/
def toNextToken (s : Stream) : Stream :=
  let (keyAllowed, cursor) :=
    skipBetween s.isFlow s.margin (s.size + 1) s.keyAllowed s.cursor
  { s with keyAllowed, cursor }

end Stream

end CMakeSense.Yaml
