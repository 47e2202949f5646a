import CMakeSense.Query.Completion

/-! Requests from a cursor. The cursor stands behind the token that raises the request, or behind
a word that was begun after that token; the client narrows the list down by the word itself. -/

namespace CMakeSense.Cursor

/-- Whether a list of candidates can open after a token of this kind. -/
def opensList : TokenKind → Bool
  | .openParen | .whiteSpace | .variableStart | .variableStartEnv | .variableStartCache => true
  | _ => false

/-- The request that a token of a line raises. -/
def requestFor (line : Nat) (token : Token) : Request := ⟨⟨line, token.start⟩, some token.kind⟩

/-- The request for a cursor behind the given tokens of a line, the nearest token first. -/
def requestBehind? (line : Nat) : List Move → Option Request
  | [] => none
  | current :: earlier =>
    if opensList current.token.kind then some (requestFor line current.token)
    else if !current.token.kind.isWord then none
    else if !current.before.insideParens then some (requestFor line current.token)
    else match earlier with
      | previous :: _ =>
        if opensList previous.token.kind && previous.token.stop = current.token.start then
          some (requestFor line previous.token)
        else none
      | [] => none

/-- The request for a cursor at a position. -/
def request? (lines : List Text) (position : Position) : Option Request :=
  if position.line < 0 || position.column ≤ 0 then none
  else do
    let line := position.line.toNat
    let text ← lines[line]?
    let behind := (Scan.moves (Walk.stateAt lines line) text).takeWhile fun move =>
      move.token.start < position.column
    requestBehind? line behind.reverse

end CMakeSense.Cursor
