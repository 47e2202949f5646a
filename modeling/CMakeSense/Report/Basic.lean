import CMakeSense.Query.CallTip
import CMakeSense.Query.Candidates
import CMakeSense.Report.Json
import CMakeSense.Text.Quoted
import CMakeSense.Workspace.Symbols

/-! Reports: answers written for a reader, as records of tab-separated fields on lines, or as
JSON. -/

namespace CMakeSense

/-- An answer to be written. -/
inductive Report where
  | candidates (list? : Option Candidates)
  | callTip (tip? : Option CallTip)
  | tokens (steps : List Step)
  | symbols (table : ScriptSymbols)
  /-- A value of another kind, which no format can write. -/
  | other (kind : Text)

namespace Report

inductive Format where
  | line | json
  deriving DecidableEq, Repr

/-- Why a report is not written. -/
inductive Error where
  | unknownFormat (name : Text)
  | unwritable (kind : Text)

def Error.message : Error → Text
  | .unknownFormat name => utf8 "unknown format: " ++ name
  | .unwritable kind => utf8 "cannot encode " ++ kind

def Format.ofName (name : Text) : Except Error Format :=
  if name = utf8 "json" then .ok .json
  else if name = utf8 "line" then .ok .line
  else .error (.unknownFormat name)

/-- One record: its fields between tabs, and a newline. -/
def record (fields : List Text) : Text := Text.join [Ascii.tab] fields ++ [Ascii.newline]

/-- Resolutions in byte order of the names. -/
def sortedResolutions (resolved : List (Text × Text)) : List (Text × Text) :=
  resolved.mergeSort fun a b => decide (a.1 ≤ b.1)

def candidateRecord (candidate : Candidate) : Text := record [candidate.kind.label, candidate.text]

/-- The record of a call's parameter; the active one is marked with a star. -/
def parameterRecord (active? : Option Nat) (i : Nat) (parameter : Parameter) : Text :=
  record [utf8 "parameter", Numeral.decimal i,
    parameter.render ++ if active? = some i then utf8 "*" else []]

def callTipRecords (tip : CallTip) : Text :=
  record [utf8 "signature", tip.label] ++
    (tip.parameters.mapIdx (parameterRecord tip.active?)).flatten

def tokenRecord (step : Step) : Text :=
  record [Numeral.decimal (step.line + 1) ++ utf8 ":" ++ Numeral.decimal step.token.start ++
      utf8 "-" ++ Numeral.decimal step.token.stop,
    step.token.kind.label, step.tokenText.quoted, step.token.trigger.label]

/-- The names of a script by their kind. -/
def symbolGroups (symbols : ScriptSymbols) : List (Text × List Text) :=
  [(utf8 "variable", symbols.normalVariables), (utf8 "env", symbols.envVariables),
    (utf8 "cache", symbols.cacheVariables), (utf8 "function", symbols.functions),
    (utf8 "macro", symbols.macros), (utf8 "target", symbols.targets),
    (utf8 "test", symbols.tests)]

def includeRecord (reference : Include) : Text :=
  record [if reference.isPackage then utf8 "package" else utf8 "include", reference.name,
    Numeral.decimalInt (reference.line + 1)]

def symbolRecords (symbols : ScriptSymbols) : Text :=
  ((symbolGroups symbols).flatMap fun (kind, names) =>
      names.flatMap fun name => record [kind, name]) ++
    symbols.includes.flatMap includeRecord ++
    (sortedResolutions symbols.resolved).flatMap fun (name, path) =>
      record [utf8 "resolved", name, path]

/-- The records of a report. -/
def lines : Report → Except Error Text
  | .candidates list? => .ok (((list?.map (·.presented)).getD []).flatMap candidateRecord)
  | .callTip tip? => .ok ((tip?.map callTipRecords).getD [])
  | .tokens steps => .ok (steps.flatMap tokenRecord)
  | .symbols table => .ok (symbolRecords table)
  | .other kind => .error (.unwritable kind)

def spanValue (span : Span) : JsonValue :=
  .record [("startLine", .int span.startLine), ("startCol", .int span.startColumn),
    ("endLine", .int span.endLine), ("endCol", .int span.endColumn)]

def candidateValue (candidate : Candidate) : JsonValue :=
  .record [("text", .string candidate.text), ("kind", .string candidate.kind.label)]

/-- The number of the active parameter, or minus one. -/
def activeNumber (active? : Option Nat) : Int := (active?.map Int.ofNat).getD (-1)

def callTipValue (tip : CallTip) : JsonValue :=
  .record ([("label", .string tip.label), ("parameters", .texts (tip.parameters.map (·.render))),
    ("activeParameter", .int (activeNumber tip.active?)), ("nameSpan", spanValue tip.nameSpan),
    ("startSpan", spanValue tip.startSpan)] ++
    (tip.endSpan?.map fun span => ("endSpan", spanValue span)).toList ++
    [("nextSpans", .array (tip.nextSpans.map spanValue))])

/-- A token; the trigger and the command are left out where there is none. -/
def tokenValue (step : Step) : JsonValue :=
  let token := step.token
  .record ([("line", .int step.line), ("kind", .string token.kind.label),
    ("start", .int token.start), ("end", .int token.stop), ("text", .string step.tokenText)] ++
    (if token.trigger = .none then [] else [("trigger", .string token.trigger.label)]) ++
    (token.command.map fun command => ("command", .string command.name)).toList)

def includeValue (reference : Include) : JsonValue :=
  .record ([("name", .string reference.name), ("line", .int (reference.line + 1))] ++
    if reference.isPackage then [("package", .bool true)] else [])

def symbolsValue (symbols : ScriptSymbols) : JsonValue :=
  .record ([("path", .string symbols.path), ("variables", .texts symbols.normalVariables),
    ("envVariables", .texts symbols.envVariables),
    ("cacheVariables", .texts symbols.cacheVariables), ("functions", .texts symbols.functions),
    ("macros", .texts symbols.macros), ("targets", .texts symbols.targets),
    ("tests", .texts symbols.tests),
    ("includes", .array (symbols.includes.map includeValue))] ++
    if symbols.resolved.isEmpty then []
    else [("resolved", .object ((sortedResolutions symbols.resolved).map fun (name, path) =>
      (name, .string path)))])

/-- The JSON value of a report. -/
def value : Report → Except Error JsonValue
  | .candidates list? => .ok (.array (((list?.map (·.presented)).getD []).map candidateValue))
  | .callTip tip? => .ok ((tip?.map callTipValue).getD .null)
  | .tokens steps => .ok (.array (steps.map tokenValue))
  | .symbols table => .ok (symbolsValue table)
  | .other kind => .error (.unwritable kind)

/-- The report in a format. -/
def write (format : Format) (report : Report) : Except Error Text :=
  match format with
  | .line => report.lines
  | .json => report.value.map fun value => value.render 0 ++ [Ascii.newline]

end Report

end CMakeSense
