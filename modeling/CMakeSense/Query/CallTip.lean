import CMakeSense.Catalog.Signature
import CMakeSense.Catalog.Subcommand
import CMakeSense.Query.Context
import CMakeSense.Script.Definition

/-! Call tips: the signature of the command around a position, the spans of its parts in the
script, and the parameter that the position belongs to. -/

namespace CMakeSense

/-- A stretch of text between two places of a script. -/
structure Span where
  startLine : Nat
  startColumn : Nat
  endLine : Nat
  endColumn : Nat
  deriving DecidableEq, Repr

/-- The span of a step's token. -/
def Step.span (step : Step) : Span := ⟨step.line, step.token.start, step.line, step.token.stop⟩

/-- The parameters of a call, after the subcommand keyword that selects them, if one does. -/
structure Signature where
  subcommand? : Option Text
  parameters : List Parameter

namespace Signature

/-- All parameters, the subcommand keyword first. -/
def slots (signature : Signature) : List Parameter :=
  match signature.subcommand? with
  | some keyword => .plain keyword :: signature.parameters
  | none => signature.parameters

/-- The signature of a built-in command called with the given arguments. -/
def ofCommand? (command : Command) (arguments : List Text) : Option Signature :=
  let selected? : Option Signature := do
    let keyword ← arguments.head?
    let parameters ← command.subcommandParameters? keyword
    some ⟨some keyword.toUpper, parameters⟩
  selected?.or (command.parameters?.map fun parameters => ⟨none, parameters⟩)

/-- The parameters of a user-defined command: those of its definition in the buffer, or else
those that another file gives it. The outer option is empty when the other files cannot be
consulted. -/
def userParameters? (source : Source) (name : Text) : Option (Option (List Parameter)) :=
  match Script.functionParameters? source.lines name with
  | some names => some (some (names.map .plain))
  | none => (source.symbols.parameters? name).map (·.map fun names => names.map .plain)

/-- The signature of the command around a position. -/
def find? (source : Source) (command : Option Command) (name : Text) (arguments : List Text) :
    Option Signature :=
  match command with
  | some command => ofCommand? command arguments
  | none => (userParameters? source name).join.map fun parameters => ⟨none, parameters⟩

end Signature

/-- The index of the parameter that the argument with the given index belongs to. A variadic
parameter at the end takes all further arguments. -/
def activeParameter? (parameters : List Parameter) (index : Nat) : Option Nat :=
  if index < parameters.length then some index
  else match parameters.getLast? with
    | some last => if last.variadic then some (parameters.length - 1) else none
    | none => none

/-- A call tip. -/
structure CallTip where
  /-- The name as written. -/
  name : Text
  command : Option Command
  subcommand? : Option Text
  parameters : List Parameter
  nameSpan : Span
  startSpan : Span
  /-- The closing parenthesis, when the position is on it. -/
  endSpan? : Option Span
  /-- The separators between arguments up to the position. -/
  nextSpans : List Span
  /-- None past the last parameter. -/
  active? : Option Nat
  deriving DecidableEq, Repr

namespace CallTip

/-- The text between two parameters. -/
def delimiter : Text := utf8 " "

/-- The call as one line. -/
def label (tip : CallTip) : Text := Parameter.call tip.name tip.parameters

/-- A call as far as its tokens have been followed. -/
structure Call where
  name : Text
  command : Option Command
  nameSpan : Span
  startSpan : Span
  endSpan? : Option Span
  /-- The separators between arguments, the last one first. -/
  separators : List Span
  arguments : Arguments

/-- What following the tokens of a script has found so far: the last word outside of argument
lists with its span, the last call, and whether its argument list is still open. -/
structure Trail where
  name : Text
  nameSpan : Span
  call? : Option Call
  isOpen : Bool

def Trail.start : Trail := ⟨[], ⟨0, 0, 0, 0⟩, none, false⟩

/-- Follows one token of an argument list. -/
def Call.follow (call : Call) (step : Step) : Call :=
  let call := { call with arguments := call.arguments.add step }
  if step.token.trigger.has .parameterNext then
    { call with separators := step.span :: call.separators }
  else if step.token.trigger.has .parameterEnd then { call with endSpan? := some step.span }
  else call

/-- The call that the parenthesis of a step opens. -/
def Trail.openCall (trail : Trail) (step : Step) : Call :=
  { name := trail.name, command := step.after.lastCommand, nameSpan := trail.nameSpan,
    startSpan := step.span, endSpan? := none, separators := [], arguments := .start step.line }

/-- Follows one token. -/
def Trail.follow (trail : Trail) (step : Step) : Trail :=
  if trail.isOpen then
    { trail with
      call? := trail.call?.map (·.follow step)
      isOpen := !(step.token.trigger.has .parameterEnd) }
  else if step.token.kind.isWord then
    { trail with name := step.tokenText, nameSpan := step.span }
  else if step.token.trigger.has .parameterStart then
    { trail with call? := some (trail.openCall step), isOpen := true }
  else trail

/-- Whether the last step closes an argument list exactly at a column of a line. -/
def closesAt (steps : List Step) (line : Nat) (column : Int) : Bool :=
  match steps.getLast? with
  | some step =>
    step.token.trigger.has .parameterEnd && step.line = line && step.token.start = column
  | none => false

/-- The tip for a call with the given signature. -/
def ofCall (call : Call) (signature : Signature) : CallTip :=
  { name := call.name, command := call.command, subcommand? := signature.subcommand?,
    parameters := signature.slots, nameSpan := call.nameSpan, startSpan := call.startSpan,
    endSpan? := call.endSpan?, nextSpans := call.separators.reverse,
    active? := activeParameter? signature.slots call.arguments.done.length }

/-- The tip at a column of a line. -/
def atLine? (source : Source) (line : Nat) (column : Int) : Option CallTip := do
  let steps := Walk.upTo source.lines line column
  let trail := steps.foldl Trail.follow .start
  if trail.isOpen || closesAt steps line column then
    let call ← trail.call?
    let signature ← Signature.find? source call.command call.name call.arguments.done
    some (ofCall call signature)
  else none

/-- The call tip at a position: that of the argument list around it, or of the one that its token
closes. There is none where no signature is known. -/
def around? (source : Source) (position : Position) : Option CallTip := do
  let line ← position.lineIn? source.lines
  atLine? source line position.column

end CallTip

end CMakeSense
