import CMakeSense.Editor.Message
import CMakeSense.Editor.Reply
import CMakeSense.Editor.Uri
import CMakeSense.Query.Cursor
import CMakeSense.Query.Hover
import CMakeSense.Workspace.Basic

/-! The editor's server. It answers the messages of a client one at a time against the file tree as
it is then. Before a project is opened, and after the client has shut the server down, it answers
nothing but the opening of a project. -/

namespace CMakeSense.Editor

/-- Where the server stands. -/
inductive Phase where
  /-- No project is open; there may have been one. -/
  | waiting (last? : Option Workspace)
  | ready (workspace : Workspace)
  deriving DecidableEq, Repr

namespace Phase

/-- The workspace of the project that was opened last. -/
def workspace? : Phase → Option Workspace
  | .waiting last? => last?
  | .ready workspace => some workspace

def isReady : Phase → Bool
  | .waiting _ => false
  | .ready _ => true

end Phase

structure Server where
  version : Text
  /-- What the command line sets; it wins over all else. -/
  overrides : Config
  /-- The modules directory that the environment names; none when empty. -/
  environment : Text
  phase : Phase
  deriving DecidableEq, Repr

namespace Server

/-- Why a message has no answer. -/
inductive Error where
  | notReady
  | unreadable (error : Message.ReadError)
  deriving DecidableEq, Repr

def Error.message : Error → Text
  | .notReady => utf8 "server not initialized"
  | .unreadable .unknownMethod => utf8 "method not supported"
  | .unreadable .badParameters => utf8 "bad parameters"

/-- A server that waits for its first project. -/
def new (version : Text) (overrides : Config) (environment : Text) : Server :=
  ⟨version, overrides, environment, .waiting none⟩

/-- The root of a project. A path wins over a URI, and the working directory stands in for what is
empty or malformed. -/
def root (rootPath? rootUri? : Option Text) : Text :=
  match (rootPath?.filter (!·.isEmpty)).or ((rootUri?.filter (!·.isEmpty)).bind Uri.path?) with
  | some path => path
  | none => utf8 "."

/-- The configuration for a project: its settings file, then the environment, then the command
line. A settings file that cannot be used is passed over. -/
def configFor (server : Server) (tree : FileTree) (root : Text) : Config :=
  let config := match Config.find tree root with
    | .ok (config, _) => config
    | .error _ => .default
  (config.withEnvironment server.environment).withOverrides server.overrides

/-- Changes the workspace as a message about the document at a path tells. -/
def noteAt (workspace : Workspace) (tree : FileTree) (path : Text) : Message → Workspace
  | .opened _ content | .changed _ (some content) => workspace.update tree path content
  | .closed _ =>
    match workspace.scanFile tree path with
    | .ok workspace => workspace
    | .error _ => workspace.remove path
  | .saved _ content? =>
    let loaded := match content? with
      | some content => workspace.update tree path content
      | none => (workspace.scanFile tree path).toOption.getD workspace
    loaded.refresh tree path
  | _ => workspace

/-- Answers a question about the document at a path. -/
def answerAt (workspace : Workspace) (tree : FileTree) (path : Text) : Message → JsonValue
  | .completion _ position => Reply.candidates do
    let source ← workspace.source? tree path
    let request ← Cursor.request? source.lines position
    Completion.candidates? tree source request
  | .signatureHelp _ position =>
    let behind : Position := ⟨position.line, position.column - 1⟩
    ((workspace.callTip? tree path behind).map Reply.signatureHelp).getD .null
  | .hover _ position =>
    let summary? := (workspace.source? tree path).bind (Hover.around? · position)
    (summary?.map Reply.hover).getD .null
  | _ => .null

/-- The URI of the document that a message is about. -/
def uri? : Message → Option Text
  | .opened uri _ | .changed uri _ | .closed uri | .saved uri _ | .completion uri _
  | .signatureHelp uri _ | .hover uri _ => some uri
  | .start .. | .started | .shutdown | .setTrace => none

/-- Handles a message about a document. A document with a malformed URI does not exist. -/
def handleDocument (workspace : Workspace) (tree : FileTree) (message : Message) :
    JsonValue × Workspace :=
  match (uri? message).bind Uri.path? with
  | some path => (answerAt workspace tree path message, noteAt workspace tree path message)
  | none => (.null, workspace)

/-- Handles a message: the answer, and where the server stands then. -/
def handle (server : Server) (tree : FileTree) (message : Message) : JsonValue × Phase :=
  match message, server.phase with
  | .start rootPath? rootUri?, _ =>
    let root := root rootPath? rootUri?
    (Reply.greeting server.version, .ready (.new root (server.configFor tree root)))
  | .shutdown, phase => (.null, .waiting phase.workspace?)
  | .started, .ready workspace => (.null, .ready (workspace.scanAll tree))
  | message, .ready workspace =>
    let (answer, workspace) := handleDocument workspace tree message
    (answer, .ready workspace)
  | _, .waiting last? => (.null, .waiting last?)

/-- Receives a message in its written form. -/
def receive (server : Server) (tree : FileTree) (method : Text) (params? : Option JsonValue) :
    Except Error JsonValue × Server :=
  if !server.phase.isReady && method ≠ Message.startMethod then (.error .notReady, server)
  else match Message.read method params? with
    | .error error => (.error (.unreadable error), server)
    | .ok message =>
      let (answer, phase) := server.handle tree message
      (.ok answer, { server with phase })

end Server

end CMakeSense.Editor
