import CMakeSense.Token.Walk

/-! Statements: the command invocations of a script with their arguments. Arguments end at blanks
directly inside the argument list and at line ends outside of strings; a string that goes on over
a line end keeps a newline there. Comments belong to no argument. -/

namespace CMakeSense

/-- An argument without the quotes around it. A quote that is not closed is dropped too. -/
def unquote (argument : Text) : Text :=
  if 2 ≤ argument.length && argument.head? = some Ascii.quote &&
      argument.getLast? = some Ascii.quote then
    argument.tail.dropLast
  else Text.trimPrefix [Ascii.quote] argument

/-- The arguments read so far of an argument list. Both lists grow at their heads, so that reading
takes time in proportion to the bytes read; `done` and `pending` show them in order. -/
structure Arguments where
  /-- The arguments that have ended, the last one first. -/
  ended : List Text
  /-- The bytes of the argument that is being read, the last one first. -/
  begun : Option Text
  /-- The line of the last token. -/
  line : Nat
  deriving DecidableEq, Repr

namespace Arguments

/-- The arguments that have ended. -/
def done (args : Arguments) : List Text := args.ended.reverse

/-- The bytes of the argument that is being read. -/
def pending (args : Arguments) : Option Text := args.begun.map List.reverse

/-- The arguments at the parenthesis that opens the list. -/
def start (line : Nat) : Arguments := ⟨[], none, line⟩

/-- Ends the argument that is being read. -/
def flush (args : Arguments) : Arguments :=
  match args.begun with
  | some bytes => { args with ended := unquote bytes.reverse :: args.ended, begun := none }
  | none => args

/-- Adds bytes to the argument that is being read, or starts one. -/
def append (args : Arguments) (bytes : Text) : Arguments :=
  { args with begun := some (bytes.reverse ++ args.begun.getD []) }

@[simp] theorem done_start (line : Nat) : (start line).done = [] := rfl

@[simp] theorem pending_start (line : Nat) : (start line).pending = none := rfl

@[simp] theorem done_flush (args : Arguments) :
    args.flush.done = args.done ++ (args.pending.map unquote).toList := by
  obtain ⟨ended, begun, line⟩ := args
  cases begun <;> simp [flush, done, pending]

@[simp] theorem pending_flush (args : Arguments) : args.flush.pending = none := by
  obtain ⟨ended, begun, line⟩ := args
  cases begun <;> rfl

@[simp] theorem done_append (args : Arguments) (bytes : Text) :
    (args.append bytes).done = args.done := rfl

@[simp] theorem pending_append (args : Arguments) (bytes : Text) :
    (args.append bytes).pending = some (args.pending.getD [] ++ bytes) := by
  obtain ⟨ended, begun, line⟩ := args
  cases begun <;> simp [append, pending]

/-- Moves on to the line of the next token. -/
def enterLine (args : Arguments) (step : Step) : Arguments :=
  if step.line = args.line then args
  else if step.before.inString then { args.append [Ascii.newline] with line := step.line }
  else { args.flush with line := step.line }

/-- Reads one token of the list. -/
def add (args : Arguments) (step : Step) : Arguments :=
  let args := args.enterLine step
  if step.token.trigger.has .parameterEnd then args.flush
  else if step.token.kind = .comment then args
  else if step.token.kind = .whiteSpace && step.before.depth.val = 1 then args.flush
  else args.append step.tokenText

end Arguments

/-- A command invocation. The name is kept as written; `closed` tells whether the argument list
ends before the script does. -/
structure Statement where
  command : Option Command
  name : Text
  line : Nat
  arguments : List Text
  closed : Bool
  deriving DecidableEq, Repr

namespace Statement

/-- The argument at a position, or the empty text. -/
def argument (statement : Statement) (i : Nat) : Text := statement.arguments.getD i []

/-- A word that may name a command. -/
structure Head where
  command : Option Command
  name : Text
  line : Nat

def Head.ofStep (step : Step) : Head := ⟨step.token.command, step.tokenText, step.line⟩

def Head.statement (head : Head) (arguments : List Text) (closed : Bool) : Statement :=
  ⟨head.command, head.name, head.line, arguments, closed⟩

/-- What has been read of the next statement: at most a word, or its head and some arguments. -/
inductive Reading where
  | between (head? : Option Head)
  | within (head : Head) (args : Arguments)

/-- Reads one token outside of argument lists. Blanks and comments may stand between a word and
its parenthesis; anything else gives the word up. -/
def Reading.afterOutside (head? : Option Head) (step : Step) : Reading :=
  match step.token.kind with
  | .keyword | .identifier => .between (some (.ofStep step))
  | .openParen =>
    if step.token.trigger.has .parameterStart then
      match head? with
      | some head => .within head (.start step.line)
      | none => .between none
    else .between none
  | .whiteSpace | .comment => .between head?
  | _ => .between none

/-- The statements that some steps complete, after what has been read before them. -/
def readFrom : Reading → List Step → List Statement
  | .between _, [] => []
  | .within head args, [] => [head.statement args.flush.done false]
  | .between head?, step :: steps => readFrom (.afterOutside head? step) steps
  | .within head args, step :: steps =>
    let args := args.add step
    if step.token.trigger.has .parameterEnd then
      head.statement args.done true :: readFrom (.between none) steps
    else readFrom (.within head args) steps

end Statement

/-- The statements of a script. -/
def Script.statements (lines : List Text) : List Statement :=
  Statement.readFrom (.between none) (Walk.steps lines)

end CMakeSense
