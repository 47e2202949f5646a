import CMakeSense.Query.CallTip

/-! Hover texts: the one-line summary of the command that is named at a position. -/

namespace CMakeSense.Hover

/-- The summary of the command that a word outside of argument lists names. -/
def ofWord? (source : Source) (name : Text) (token : Token) : Option Text :=
  match token.kind with
  | .keyword => token.command.bind (·.summary?)
  | .identifier => (Signature.userParameters? source name).join.map (Parameter.call name)
  | _ => none

/-- The summary at a position. -/
def around? (source : Source) (position : Position) : Option Text :=
  if position.line < 0 then none
  else do
    let line := position.line.toNat
    let text ← source.lines[line]?
    let move ← (Scan.moves (Walk.stateAt source.lines line) text).find?
      (·.token.contains position.column)
    if move.before.insideParens then none
    else ofWord? source (move.token.text text) move.token

end CMakeSense.Hover
