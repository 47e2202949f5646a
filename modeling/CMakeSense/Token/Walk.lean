import CMakeSense.Token.Scan

/-! Walking a script: the tokens of its lines one after the other, each line scanned from the
state that the line before it left. -/

namespace CMakeSense

/-- A token of a script with its line and the states around it. -/
structure Step where
  /-- The number of the line, counted from zero. -/
  line : Nat
  token : Token
  /-- What the line holds from the token on. -/
  rest : Text
  before : State
  after : State
  deriving DecidableEq, Repr

namespace Step

/-- The bytes of the token. -/
def tokenText (step : Step) : Text := step.rest.take step.token.length

/-- What the line holds behind the token. -/
def following (step : Step) : Text := step.rest.drop step.token.length

def ofMove (line : Nat) (move : Move) : Step :=
  ⟨line, move.token, move.rest, move.before, move.after⟩

end Step

namespace Walk

/-- The steps of lines numbered from `first`, scanned from a state. -/
def stepsFrom (first : Nat) (s : State) : List Text → List Step
  | [] => []
  | line :: lines =>
    (Scan.moves s line).map (Step.ofMove first) ++
      stepsFrom (first + 1) (Scan.stateAfter s line) lines

/-- The steps of a script. -/
def steps (lines : List Text) : List Step := stepsFrom 0 .start lines

/-- The state after some steps of a script from its top. -/
def final (steps : List Step) : State := steps.foldl (fun _ step => step.after) .start

/-- The state at the start of line `n`, or at the end of a script with fewer lines. -/
def stateAt (lines : List Text) (n : Nat) : State := (lines.take n).foldl Scan.stateAfter .start

end Walk

end CMakeSense
