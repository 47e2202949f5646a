import CMakeSense.Query.CallTip
import CMakeSense.Query.Candidates
import CMakeSense.Report.Json

/-! The answers to an editor's questions. Where there is nothing to say the answer is null. Texts
are made valid UTF-8. -/

namespace CMakeSense

/-- The number that editors know a kind of candidate by. -/
def CandidateKind.editorCode : CandidateKind → Nat
  | .command => 14
  | .property => 10
  | .target => 9
  | .variableName => 6
  | .reference => 17
  | .function => 3
  | .unknown => 1

namespace Editor.Reply

def text (t : Text) : JsonValue := .string (Utf8.repair t)

/-- What the server offers, with its name and version. -/
def greeting (version : Text) : JsonValue :=
  let sync := .record [("openClose", .bool true), ("change", .int 1),
    ("save", .record [("includeText", .bool true)])]
  .record [
    ("capabilities", .record [("textDocumentSync", sync),
      ("completionProvider",
        .record [("triggerCharacters", .texts (["(", " ", "\x7b"].map utf8))]),
      ("hoverProvider", .bool true),
      ("signatureHelpProvider", .record [("triggerCharacters", .texts (["(", " "].map utf8))])]),
    ("serverInfo", .record [("name", .string (utf8 "cmakels")), ("version", text version)])]

def candidate (item : Candidate) : JsonValue :=
  .record [("label", text item.text), ("kind", .int item.kind.editorCode),
    ("detail", text item.kind.label)]

/-- The candidates in the order of presentation, where there are any. -/
def candidates (list? : Option Candidates) : JsonValue :=
  match list? with
  | some list => if list.size = 0 then .null else .array (list.presented.map candidate)
  | none => .null

/-- A call tip. The index past the last parameter says that none is active. -/
def signatureHelp (tip : CallTip) : JsonValue :=
  let parameters := tip.parameters.map fun parameter => .record [("label", text parameter.render)]
  let signature := ("label", text tip.label) ::
    if parameters.isEmpty then [] else [("parameters", .array parameters)]
  .record [("signatures", .array [.record signature]), ("activeSignature", .int 0),
    ("activeParameter", .int (tip.active?.getD parameters.length))]

/-- A summary as a block of code. -/
def hover (summary : Text) : JsonValue :=
  .record [("contents", .record [("kind", .string (utf8 "markdown")),
    ("value", text (utf8 "```cmake\n" ++ summary ++ utf8 "\n```"))])]

end Editor.Reply

end CMakeSense
