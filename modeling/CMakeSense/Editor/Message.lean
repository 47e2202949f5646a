import CMakeSense.Editor.Abilities
import CMakeSense.Editor.Params

/-! The messages of an editor: what a client tells or asks the server. A message is read off the
name of its method and its parameters. -/

namespace CMakeSense.Editor

inductive Message where
  /-- Opens a project; its root may be given by a path or a URI. -/
  | start (rootPath? rootUri? : Option Text)
  /-- The client is ready. -/
  | started
  | shutdown
  | setTrace
  | opened (uri content : Text)
  /-- The content is given where the last change replaces the whole document. -/
  | changed (uri : Text) (content? : Option Text)
  | closed (uri : Text)
  | saved (uri : Text) (content? : Option Text)
  | completion (uri : Text) (position : Position)
  | signatureHelp (uri : Text) (position : Position)
  | hover (uri : Text) (position : Position)
  deriving DecidableEq, Repr

namespace Message

open Reader

/-- A place in a document, as a shape. -/
def placeShape : Shape := .record [("line", .unsigned), ("character", .unsigned)]

/-- The roots that a client gives to a project. -/
structure Roots where
  path? : Option Text := none
  uri? : Option Text := none

def readRoots : Reader Roots :=
  object [
    part "rootPath" (·.path?) (fun roots path? => { roots with path? }) (optional [] text),
    part "rootUri" (·.uri?) (fun roots uri? => { roots with uri? }) (optional [] text),
    ignored "workDoneToken" .taskName,
    ignored "processId" .signed,
    ignored "clientInfo" (.record [("name", .text), ("version", .text)]),
    ignored "locale" .text,
    ignored "capabilities" Abilities.all,
    ignored "trace" .text,
    ignored "workspaceFolders" (.list (.record [("uri", .text), ("name", .text)]))]

/-- A document as messages speak of it. -/
structure Document where
  uri : Text := []
  /-- The content; none where a message gives none. -/
  content? : Option Text := none

/-- The URI of a document. -/
def uriPart : Member Document := part "uri" (·.uri) (fun doc uri => { doc with uri }) text

/-- A document that a message names, with other members of it that nobody asks for. -/
def named (more : List (Member Document)) : Reader Document := object (uriPart :: more)

/-- A message about a document, with what else belongs to the document, and to the message. -/
def aboutDocument (inside outside : List (Member Document)) : Reader Document :=
  object (part "textDocument" id (fun _ doc => doc) (named inside) :: outside)

def readOpened : Reader Document :=
  aboutDocument
    [part "text" (fun doc => doc.content?.getD [])
      (fun doc content => { doc with content? := some content }) text,
      ignored "languageId" .text, ignored "version" .signed] []

def readSaved : Reader Document :=
  aboutDocument []
    [part "text" (·.content?) (fun doc content? => { doc with content? }) (optional [] text)]

/-- A change of a document. -/
structure Change where
  /-- Whether the change is of a stretch of the document. -/
  isPartial : Bool := false
  content : Text := []

def readChange : Reader Change :=
  object [
    ⟨"range", fun change value => do
      let _ ← unused (.record [("start", placeShape), ("end", placeShape)]) () value
      match value with
      | .null => some { change with isPartial := false }
      | _ => some { change with isPartial := true }⟩,
    ignored "rangeLength" .unsigned,
    part "text" (·.content) (fun change content => { change with content }) text]

/-- The new content of a document, if the change gives all of it. -/
def Change.content? (change : Change) : Option Text :=
  if change.isPartial then none else some change.content

/-- The changes of a document. -/
structure Changes where
  document : Document := {}
  changes : List JsonValue := []

def readChanges : Reader Changes :=
  object [
    part "textDocument" (·.document) (fun all document => { all with document })
      (named [ignored "version" .signed]),
    part "contentChanges" (·.changes) (fun all changes => { all with changes }) items]

def readChanged (params : JsonValue) : Option Message := do
  let all ← readChanges {} params
  let changes ← all.changes.mapM (readChange {})
  some (.changed all.document.uri (changes.getLast?.bind Change.content?))

/-- A question about a place in a document. -/
structure Question where
  document : Document := {}
  position : Position := ⟨0, 0⟩

/-- Reads a question, with the members that belong to its kind. -/
def readQuestion (more : List (Member Question)) : Reader Question :=
  object ([
    part "textDocument" (·.document) (fun question document => { question with document })
      (named []),
    part "position" (·.position) (fun question position => { question with position }) position,
    ignored "workDoneToken" .taskName] ++ more)

/-- What raised a question. -/
def triggerShape : List (String × Shape) :=
  [("triggerKind", .signed), ("triggerCharacter", .text)]

/-- A text, or a text with its markup. -/
def documentationShape : Shape := .either .text (.record [("kind", .text), ("value", .text)])

/-- A parameter of a signature. Its label is a text or a stretch of the label of the signature, and
cannot be left out. -/
def parameterShape : Shape :=
  .both (.having "label")
    (.record [("label", .either .text (.list .unsigned)), ("documentation", documentationShape)])

/-- The call tips that are shown already. -/
def shownTipsShape : Shape :=
  .record [("activeSignature", .unsigned), ("activeParameter", .unsigned),
    ("signatures", .list (.record [("label", .text), ("documentation", documentationShape),
      ("parameters", .list parameterShape), ("activeParameter", .unsigned)]))]

def readCompletion : Reader Question :=
  readQuestion [ignored "partialResultToken" .taskName, ignored "context" (.record triggerShape)]

def readSignatureHelp : Reader Question :=
  readQuestion [ignored "context" (.record (triggerShape ++
    [("isRetrigger", .truth), ("activeSignatureHelp", shownTipsShape)]))]

/-- A message about a document. -/
def ofDocument (read : Reader Document) (message : Document → Message) (params : JsonValue) :
    Option Message :=
  (read {} params).map message

/-- A question about a document. -/
def ofQuestion (read : Reader Question) (message : Text → Position → Message)
    (params : JsonValue) : Option Message :=
  (read {} params).map fun question => message question.document.uri question.position

/-- The method that opens a project. -/
def startMethod : Text := utf8 "initialize"

/-- The method that ends the work on a project. It has no parameters. -/
def shutdownMethod : Text := utf8 "shutdown"

/-- The methods that have parameters, with the readers of these. -/
def methods : List (Text × (JsonValue → Option Message)) :=
  [(startMethod, fun params =>
      (readRoots {} params).map fun roots => .start roots.path? roots.uri?),
    (utf8 "initialized", fun params => (unused (.record []) () params).map fun _ => .started),
    (utf8 "$/setTrace", fun params =>
      (unused (.record [("value", .text)]) () params).map fun _ => .setTrace),
    (utf8 "textDocument/didOpen",
      ofDocument readOpened fun doc => .opened doc.uri (doc.content?.getD [])),
    (utf8 "textDocument/didChange", readChanged),
    (utf8 "textDocument/didClose", ofDocument (aboutDocument [] []) fun doc => .closed doc.uri),
    (utf8 "textDocument/didSave", ofDocument readSaved fun doc => .saved doc.uri doc.content?),
    (utf8 "textDocument/completion", ofQuestion readCompletion .completion),
    (utf8 "textDocument/signatureHelp", ofQuestion readSignatureHelp .signatureHelp),
    (utf8 "textDocument/hover", ofQuestion (readQuestion []) .hover)]

/-- Why a message cannot be read. -/
inductive ReadError where
  | unknownMethod | badParameters
  deriving DecidableEq, Repr

/-- Reads a message. A method that has parameters cannot do without them. -/
def read (method : Text) (params? : Option JsonValue) : Except ReadError Message :=
  if method = shutdownMethod then .ok .shutdown
  else match methods.lookup method with
    | none => .error .unknownMethod
    | some readParams =>
      match params?.bind readParams with
      | some message => .ok message
      | none => .error .badParameters

end Message

end CMakeSense.Editor
