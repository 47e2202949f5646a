import CMakeSense.CommandLine.Position
import CMakeSense.CommandLine.Verb
import CMakeSense.Query.Cursor
import CMakeSense.Report.Basic
import CMakeSense.Workspace.Symbols

/-! Running the command line against a file tree. -/

namespace CMakeSense.CommandLine

/-- The name of the program. -/
def program : Text := utf8 "cmakels"

def version : Text := utf8 "0.1.0"

/-- Why the command line fails. -/
inductive Error where
  | unknownVerb (word : Text)
  | usage (error : UsageError)
  | position (error : PositionError)
  | config (error : Config.Error)
  | unreadable (error : FileError)
  | report (error : Report.Error)
  | unknownCommand (name : Text)
  /-- The server needs a client to talk to. -/
  | noClient

/-- The verbs that may have been meant, one to a line. -/
def suggestionLines (word : Text) : Text :=
  let verbs := Verb.suggestions word
  if verbs.isEmpty then []
  else utf8 "\n\nDid you mean this?\n" ++
    verbs.flatMap fun verb => Ascii.tab :: verb.name ++ [Ascii.newline]

def Error.message : Error → Text
  | .unknownVerb word =>
    utf8 "unknown command " ++ word.quoted ++ utf8 " for " ++ program.quoted ++
      suggestionLines word ++ utf8 "\nRun '" ++ program ++ utf8 " --help' for usage."
  | .usage error => error.message
  | .position error => error.message
  | .config error => error.message
  | .unreadable error => utf8 "read script: " ++ error.message
  | .report error => error.message
  | .unknownCommand name => utf8 "unknown command: " ++ name
  | .noClient => utf8 "no client"

/-- What a run leaves behind: its output, and the error that ended it, if one did. -/
structure Outcome where
  output : Text
  error? : Option Error

namespace Outcome

def ofResult : Except Error Text → Outcome
  | .ok output => ⟨output, none⟩
  | .error error => ⟨[], some error⟩

/-- What is written to the error stream. -/
def complaint (outcome : Outcome) : Text :=
  match outcome.error? with
  | some error => utf8 "Error: " ++ error.message ++ [Ascii.newline]
  | none => []

end Outcome

/-- The surroundings of a run. -/
structure Surroundings where
  tree : FileTree
  /-- The modules directory that the environment names; none when empty. -/
  modulesDir : Text

/-- A line of output. -/
def line (t : Text) : Text := t ++ [Ascii.newline]

/-- The configuration that flags ask for. -/
def overrides (values : FlagValues) : Config :=
  ⟨values.modulesDir, values.subdirectories, values.watchInterval⟩

/-- The script at a path as a buffer of a workspace that is configured for its directory. -/
def load (around : Surroundings) (values : FlagValues) (path : Text)
    (decode : Settings.Decoder := Settings.yaml) : Except Error (Workspace × Buffer) := do
  let path := Path.absolute around.tree.workingPath path
  let dir := Path.dir path
  let (found, _) ← (Config.find around.tree dir decode).mapError .config
  let config := (found.withEnvironment around.modulesDir).withOverrides (overrides values)
  let content ← (around.tree.readFile path).mapError .unreadable
  let workspace := (Workspace.new dir config).update around.tree path content
  match workspace.buffer? path with
  | some buffer => .ok (workspace, buffer)
  | none => .error (.unreadable ⟨path, .missing⟩)

def format (values : FlagValues) : Except Error Report.Format :=
  (Report.Format.ofName values.format).mapError .report

def write (format : Report.Format) (report : Report) : Except Error Text :=
  (report.write format).mapError .report

/-- Lists the candidates at a position. -/
def complete (around : Surroundings) (values : FlagValues) (path position : Text)
    (decode : Settings.Decoder := Settings.yaml) : Except Error Text := do
  let position ← (readPosition position).mapError .position
  let (workspace, buffer) ← load around values path decode
  let format ← format values
  let candidates? := (Cursor.request? buffer.lines position).bind
    (workspace.candidates? around.tree buffer.path)
  write format (.candidates candidates?)

/-- Shows the call tip at a position. The cursor stands behind the byte it is about. -/
def signature (around : Surroundings) (values : FlagValues) (path position : Text)
    (decode : Settings.Decoder := Settings.yaml) : Except Error Text := do
  let position ← (readPosition position).mapError .position
  let (workspace, buffer) ← load around values path decode
  let format ← format values
  write format
    (.callTip (workspace.callTip? around.tree buffer.path ⟨position.line, position.column - 1⟩))

/-- Lists the tokens of a script. -/
def tokens (around : Surroundings) (values : FlagValues) (path : Text) : Except Error Text := do
  let content ← (around.tree.readFile path).mapError .unreadable
  let format ← format values
  write format (.tokens (Walk.steps (Script.lines content)))

/-- Lists what a script defines and refers to. -/
def symbols (around : Surroundings) (values : FlagValues) (path : Text)
    (decode : Settings.Decoder := Settings.yaml) : Except Error Text := do
  let (_, buffer) ← load around values path decode
  let format ← format values
  write format (.symbols (ScriptSymbols.ofBuffer around.tree buffer))

/-- A built-in command with its subcommands. -/
def describe (command : Command) : Text :=
  line (command.summary?.getD command.name) ++
    command.subcommandKeywords.flatMap fun keyword => line (utf8 "  " ++ keyword)

/-- Describes the commands with the given names, up to the first that is not built in. -/
def describeAll (names : List Text) : Outcome :=
  let known := (names.map fun name => (name, Command.ofName? name)).takeWhile (·.2.isSome)
  ⟨(known.filterMap (·.2)).flatMap describe, names[known.length]?.map .unknownCommand⟩

/-- Lists the built-in commands, or describes those that are named. -/
def commands (names : List Text) : Outcome :=
  if names.isEmpty then ⟨Command.names.flatMap line, none⟩ else describeAll names

/-- How the program is used. -/
def usage : Text :=
  line (utf8 "Completion and call tips for CMake scripts") ++
    Verb.all.flatMap fun verb => line (utf8 "  " ++ program ++ utf8 " " ++ verb.name)

/-- Does what a verb says with its operands. -/
def perform (around : Surroundings) (values : FlagValues) (verb : Verb) (operands : List Text) :
    Outcome :=
  match verb, operands with
  | .complete, [path, position] => .ofResult (complete around values path position)
  | .signature, [path, position] => .ofResult (signature around values path position)
  | .tokens, [path] => .ofResult (tokens around values path)
  | .symbols, [path] => .ofResult (symbols around values path)
  | .commands, names => commands names
  | .lsp, _ => ⟨[], some .noClient⟩
  | _, _ => ⟨usage, none⟩

/-- Runs a verb, or the command line without one. -/
def runVerb (around : Surroundings) (verb? : Option Verb) (arguments : List Text) : Outcome :=
  match readArguments (Verb.flags verb?) arguments with
  | .error error => ⟨[], some (.usage error)⟩
  | .ok (values, operands) =>
    if values.help then ⟨usage, none⟩
    else match verb? with
      | none =>
        if values.version then ⟨line (program ++ utf8 " version " ++ version), none⟩
        else ⟨usage, none⟩
      | some verb =>
        match verb.operandCount? with
        | some count =>
          if operands.length = count then perform around values verb operands
          else ⟨[], some (.usage (.wrongCount count operands.length))⟩
        | none => perform around values verb operands

/-- Runs the command line. -/
def run (around : Surroundings) (arguments : List Text) : Outcome :=
  match Verb.select arguments with
  | .error word => ⟨[], some (.unknownVerb word)⟩
  | .ok (verb?, arguments) => runVerb around verb? arguments

end CMakeSense.CommandLine
