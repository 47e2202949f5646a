import CMakeSense.Yaml.Stream.Basic

/-! Taking tokens. The next character says what kind of token begins, and three tokens are looked at
before the first of them is taken. -/

namespace CMakeSense.Yaml.Stream

/-- Fetches an indicator of some characters. -/
def fetchIndicator (s : Stream) (kind : TokenKind) (width : Nat) : Stream :=
  { s.push ⟨kind, s.cursor.mark⟩ with cursor := s.cursor.skipMany width }

/-- Fetches the end of the file, which is on a line of its own. -/
def fetchEnd (s : Stream) : Except Error Stream := do
  let mark := s.cursor.mark
  let mark := if mark.column = 0 then mark else ⟨mark.index, mark.line + 1, 0⟩
  let s := { s with cursor := { s.cursor with mark } }
  let s ← (s.closeBlocks (fun _ => true) mark).dropKey
  return { s.push ⟨.streamEnd, mark⟩ with keyAllowed := false }

def fetchDirective (s : Stream) : Except Error Stream := do
  let start := s.cursor.mark
  let s ← (s.closeBlocks (fun _ => true) start).dropKey
  let (kind, cursor) ← readDirective s.cursor
  return { s.push ⟨kind, start⟩ with cursor, keyAllowed := false }

/-- Fetches the mark of the beginning or the end of a document. -/
def fetchDocumentMark (s : Stream) (kind : TokenKind) : Except Error Stream := do
  let s ← (s.closeBlocks (fun _ => true) s.cursor.mark).dropKey
  return { s.fetchIndicator kind 3 with keyAllowed := false }

def fetchOpening (s : Stream) (kind : TokenKind) : Except Error Stream := do
  let s ← s.saveKey
  let s ← s.openFlow
  return { s.fetchIndicator kind 1 with keyAllowed := true }

def fetchClosing (s : Stream) (kind : TokenKind) : Except Error Stream := do
  let s ← s.dropKey
  return { s.closeFlow.fetchIndicator kind 1 with keyAllowed := false }

def fetchComma (s : Stream) : Except Error Stream := do
  let s ← s.dropKey
  return { s.fetchIndicator .flowEntry 1 with keyAllowed := true }

/-- Opens a block collection at the cursor, where one may begin. -/
def openHere (s : Stream) (kind : TokenKind) (problem : Problem) : Except Error Stream :=
  let mark := s.cursor.mark
  if s.isFlow then .ok s
  else if !s.keyAllowed then s.refuse problem mark
  else s.openBlock mark.column none ⟨kind, mark⟩

/-- Fetches the hyphen of an item. -/
def fetchEntry (s : Stream) : Except Error Stream := do
  let s ← s.openHere .blockSequenceStart .misplacedEntry
  let s ← s.dropKey
  return { s.fetchIndicator .blockEntry 1 with keyAllowed := true }

/-- Fetches the indicator of a key. -/
def fetchKey (s : Stream) : Except Error Stream := do
  let s ← s.openHere .blockMappingStart .misplacedKey
  let s ← s.dropKey
  return { s.fetchIndicator .key 1 with keyAllowed := !s.isFlow }

/-- Fetches a colon. It ends the possible key, if there is one. -/
def fetchValue (s : Stream) : Except Error Stream := do
  let key := s.key
  if ← s.endsKey key then
    let s := s.insert key.number ⟨.key, key.mark⟩
    let s ← s.openBlock key.mark.column (some key.number) ⟨.blockMappingStart, key.mark⟩
    let s := { s with key := { s.key with isPossible := false, waits := false } }
    return { s.fetchIndicator .value 1 with keyAllowed := false }
  else
    let s ← s.openHere .blockMappingStart .misplacedValue
    return { s.fetchIndicator .value 1 with keyAllowed := !s.isFlow }

/-- Fetches a token that may begin a key. -/
def fetchNode (s : Stream) (read : Cursor → Except Error (TokenKind × Cursor)) :
    Except Error Stream := do
  let s ← s.saveKey
  let (kind, cursor) ← read s.cursor
  return { s.push ⟨kind, s.cursor.mark⟩ with cursor, keyAllowed := false }

def fetchQuoted (s : Stream) (single : Bool) : Except Error Stream :=
  s.fetchNode fun c => (readQuoted s.size single c).map fun (text, c) => (.scalar text .quoted, c)

/-- Fetches a plain scalar. A key may begin on the line after it. -/
def fetchPlain (s : Stream) : Except Error Stream := do
  let s ← s.saveKey
  let (text, isBroken, cursor) ← readPlain s.size s.isFlow s.plainColumn s.cursor
  return { s.push ⟨.scalar text .plain, s.cursor.mark⟩ with cursor, keyAllowed := isBroken }

def fetchBlock (s : Stream) (literal : Bool) : Except Error Stream := do
  let s ← s.dropKey
  let (text, cursor) ← readBlock s.size literal s.indents.head? s.cursor
  return { s.push ⟨.scalar text .block, s.cursor.mark⟩ with cursor, keyAllowed := true }

/-- The characters that begin no plain scalar. -/
def plainOutsiders : List Char := " \t\r\n\u0085\u2028\u2029,[]\x7b\x7d#&*!|>'\"%@\x60".toList

/-- Fetches the token that begins with a character. -/
def fetchAt (s : Stream) (char : Char) : Except Error Stream :=
  let isIndicator := s.isFlow || s.cursor.skip.isAtGap
  match char with
  | '[' => s.fetchOpening .flowSequenceStart
  | '\x7b' => s.fetchOpening .flowMappingStart
  | ']' => s.fetchClosing .flowSequenceEnd
  | '\x7d' => s.fetchClosing .flowMappingEnd
  | ',' => s.fetchComma
  | '?' => if isIndicator then s.fetchKey else s.fetchPlain
  | ':' => if isIndicator then s.fetchValue else s.fetchPlain
  | '*' => s.fetchNode fun c => (readName c).map fun (name, c) => (.alias name, c)
  | '&' => s.fetchNode fun c => (readName c).map fun (name, c) => (.anchor name, c)
  | '!' => s.fetchNode fun c => (readTag c).map fun ((handle, suffix), c) => (.tag handle suffix, c)
  | '\x27' => s.fetchQuoted true
  | '\x22' => s.fetchQuoted false
  | _ =>
    if !s.isFlow && (char = '|' || char = '>') then s.fetchBlock (char = '|')
    else if plainOutsiders.contains char then s.refuse .noToken s.cursor.mark
    else s.fetchPlain

/-- Fetches the token at the cursor. A comment on the line of a token belongs to it, unless the
token is a hyphen or the mark of a document. -/
def fetchHere (s : Stream) : Except Error Stream :=
  let c := s.cursor
  match c.peek? with
  | none => s.fetchEnd
  | some char =>
    if char = '%' && c.mark.column = 0 then s.fetchDirective
    else if c.isAtIndicator '-' then s.fetchDocumentMark .documentStart
    else if c.isAtIndicator '.' then s.fetchDocumentMark .documentEnd
    else if char = '-' && c.skip.isAtGap then s.fetchEntry
    else (s.fetchAt char).map fun s => { s with cursor := s.cursor.skipLineComment }

/-- How many characters a token needs to be told from others. -/
def tokenReach : Nat := 4

/-- Fetches the next token. -/
def fetch (s : Stream) : Except Error Stream := do
  let before := s.cursor.mark
  let s := s.toNextToken
  let s := s.closeBlocks (s.cursor.mark.column < ·) before
  s.reach (s.cursor.mark.index + tokenReach)
  match s.fetchHere with
  | .ok next =>
    next.reach (next.cursor.mark.index + 1)
    return next
  | .error error =>
    match error with
    | .malformed _ _ place => s.reach (place.index + tokenReach)
    | _ => pure ()
    throw error

/-- How many tokens are looked at before one is taken. -/
def lookahead : Nat := 3

/-- Whether more tokens are needed to know what the first one is. -/
def needsMore (s : Stream) : Except Error Bool :=
  if s.queue.length < lookahead then .ok true
  else match (s.key :: s.outer).find? fun key => key.waits && key.number = s.taken with
    | some key => s.endsKey key
    | none => .ok false

/-- Fetches tokens until the first one is known. `fuel` bounds their number. -/
def fetchMore : Nat → Stream → Except Error Stream
  | 0, s => .ok s
  | fuel + 1, s => do
    if ← s.needsMore then fetchMore fuel (← s.fetch) else return s

/-- The next token, with the stream that still holds it. -/
def peek (s : Stream) : Except Error (Token × Stream) := do
  let s ← fetchMore (s.size + lookahead + 1) s
  match s.queue with
  | token :: _ => return (token, s)
  | [] => return (⟨.streamEnd, s.cursor.mark⟩, s)

/-- The stream without its next token, which has been looked at. -/
def tail (s : Stream) : Stream := { s with queue := s.queue.tail, taken := s.taken + 1 }

end CMakeSense.Yaml.Stream
