import CMakeSense.Text.Basic

/-! Triggers: flags on a token that tell an editor which questions the token may raise. -/

namespace CMakeSense

/-- A set of trigger flags, one bit each. -/
structure Trigger where
  bits : UInt8
  deriving DecidableEq, Repr

namespace Trigger

def none : Trigger := ⟨0⟩

/-- A list of candidates may open after the token. -/
def memberSelect : Trigger := ⟨2⟩

/-- The token opens the argument list of a command. -/
def parameterStart : Trigger := ⟨4⟩

/-- The token separates two arguments of a command. -/
def parameterNext : Trigger := ⟨8⟩

/-- The token closes the argument list of a command. -/
def parameterEnd : Trigger := ⟨16⟩

def union (a b : Trigger) : Trigger := ⟨a.bits ||| b.bits⟩

/-- Whether the two sets share a flag. -/
def has (t flag : Trigger) : Bool := t.bits &&& flag.bits != 0

/-- The flags that have a name. -/
def named : List (Trigger × Text) :=
  [(memberSelect, utf8 "MemberSelect"), (parameterStart, utf8 "ParameterStart"),
    (parameterNext, utf8 "ParameterNext"), (parameterEnd, utf8 "ParameterEnd")]

/-- The names of the flags in the set. -/
def label (t : Trigger) : Text :=
  match named.filter (t.has ·.1) with
  | [] => utf8 "None"
  | flags => Text.join (utf8 "|") (flags.map (·.2))

end Trigger

end CMakeSense
