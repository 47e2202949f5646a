import CMakeSense.Query.Source
import CMakeSense.Script.Statement

/-! The command around a position. A query at a position sees the tokens that start at or before
it; `Walk.upTo` cuts the walk of a script there, and `Context.around` recovers from the tokens
before the cut the command whose argument list encloses the position, with the arguments that have
ended before it. -/

namespace CMakeSense

/-- The line that a position means: a line past the end is the last line. Positions before the
first line and scripts without lines have none. -/
def Position.lineIn? (position : Position) (lines : List Text) : Option Nat :=
  if lines.isEmpty || position.line < 0 then none
  else some (min position.line.toNat (lines.length - 1))

namespace Walk

/-- The steps of a script up to a column of a line: those of the earlier lines, and those of the
line that start at or before the column. -/
def upTo (lines : List Text) (line : Nat) (column : Int) : List Step :=
  (steps (lines.take (line + 1))).takeWhile fun step =>
    !(step.line = line && column < step.token.start)

end Walk

/-- The command around a position. -/
structure Context where
  /-- The enclosing built-in command, or the one named at the position. -/
  command : Option Command
  /-- The name as written. -/
  name : Text
  depth : Nat
  /-- The arguments that have ended before the position, inside an argument list. -/
  arguments? : Option (List Text)
  /-- The token that starts exactly at the position. -/
  token? : Option Token
  deriving DecidableEq, Repr

namespace Context

/-- Whether the position is inside an argument list. -/
def isInside (context : Context) : Bool := 0 < context.depth

/-- The context of a position that no script has. -/
def outside : Context := ⟨none, [], 0, none, none⟩

/-- What following the tokens of a script has found so far: the last word outside of argument
lists, the arguments of the open argument list, and the state. -/
structure Trail where
  name : Text
  arguments? : Option Arguments
  state : State

def Trail.start : Trail := ⟨[], none, .start⟩

/-- Follows one token. -/
def Trail.follow (trail : Trail) (step : Step) : Trail :=
  match trail.arguments? with
  | some args =>
    { trail with
      arguments? :=
        if step.token.trigger.has .parameterEnd then none else some (args.add step)
      state := step.after }
  | none =>
    if step.token.kind.isWord then { trail with name := step.tokenText, state := step.after }
    else if step.token.trigger.has .parameterStart then
      { trail with arguments? := some (.start step.line), state := step.after }
    else { trail with state := step.after }

/-- The context at a column of a line of a script. -/
def atLine (lines : List Text) (line : Nat) (column : Int) : Context :=
  let steps := Walk.upTo lines line column
  let trail := steps.foldl Trail.follow .start
  let found? := steps.find? fun step => step.line = line && step.token.start = column
  match trail.arguments?, found? with
  | some args, _ =>
    { command := trail.state.lastCommand, name := trail.name, depth := trail.state.depth,
      arguments? := some args.done, token? := found?.map (·.token) }
  | none, some step =>
    if trail.state.depth.val = 0 then
      { command := step.token.command, name := step.tokenText, depth := 0,
        arguments? := none, token? := some step.token }
    else { outside with depth := trail.state.depth, token? := some step.token }
  | none, none => { outside with depth := trail.state.depth }

/-- The context at a position of a script. -/
def around (lines : List Text) (position : Position) : Context :=
  match position.lineIn? lines with
  | some line => atLine lines line position.column
  | none => outside

end Context

end CMakeSense
