import CMakeSense.Query.CallTip
import CMakeSense.Query.Completion
import CMakeSense.Query.Hover
import CMakeSense.Settings.Load
import CMakeSense.Workspace.IncludeCache

/-! Workspaces: the open buffers of a project, each with the names of the files it includes. A
buffer's cache is rebuilt when the references of the buffer change, and on demand. -/

namespace CMakeSense

/-- An open buffer. -/
structure Buffer where
  path : Text
  content : Text
  lines : List Text
  includes : List Include
  cache : IncludeCache
  deriving DecidableEq, Repr

structure Workspace where
  root : Text
  config : Config
  buffers : List Buffer
  deriving DecidableEq, Repr

/-- Whether a path names a script. -/
def isScriptPath (path : Text) : Bool :=
  let name := Path.base path
  name.equalFold (utf8 "CMakeLists.txt") || (Path.extension name).equalFold (utf8 ".cmake")

/-- Whether two reference lists name the same files, wherever they stand. -/
def Include.sameFiles (a b : List Include) : Bool :=
  a.map (fun reference => (reference.name, reference.isPackage)) =
    b.map fun reference => (reference.name, reference.isPackage)

namespace Workspace

/-- A workspace without buffers. -/
def new (root : Text) (config : Config) : Workspace := ⟨root, config, []⟩

/-- The buffer at a path. -/
def buffer? (workspace : Workspace) (path : Text) : Option Buffer :=
  workspace.buffers.find? (·.path = path)

/-- Adds a buffer, in place of the one at its path. -/
def put (workspace : Workspace) (buffer : Buffer) : Workspace :=
  { workspace with
    buffers := workspace.buffers.filter (·.path ≠ buffer.path) ++ [buffer] }

/-- The paths of the buffers in byte order. -/
def paths (workspace : Workspace) : List Text :=
  Text.sort (workspace.buffers.map (·.path))

/-- Gives a buffer new content. Its cache stays when the content refers to the same files as
before. -/
def update (workspace : Workspace) (tree : FileTree) (path content : Text) : Workspace :=
  let lines := Script.lines content
  let includes := Script.includes lines
  let cache := match workspace.buffer? path with
    | some old =>
      if Include.sameFiles old.includes includes then old.cache
      else old.cache.rebuild tree path includes
    | none => (IncludeCache.new workspace.config.modulesDir).rebuild tree path includes
  workspace.put ⟨path, content, lines, includes, cache⟩

/-- Loads a buffer from its file. -/
def scanFile (workspace : Workspace) (tree : FileTree) (path : Text) :
    Except FileError Workspace :=
  (tree.readFile path).map (workspace.update tree path)

/-- The paths of the scripts below the root that no hidden directory hides. -/
def scripts (workspace : Workspace) (tree : FileTree) : List Text :=
  ((tree.visibleFiles workspace.root).map fun names =>
    if names.isEmpty then workspace.root
    else Path.join workspace.root (Text.join [Ascii.slash] names)).filter isScriptPath

/-- Loads the scripts below the root. -/
def scanAll (workspace : Workspace) (tree : FileTree) : Workspace :=
  (workspace.scripts tree).foldl
    (fun workspace path => (workspace.scanFile tree path).toOption.getD workspace) workspace

/-- Rebuilds the cache of a buffer. -/
def refresh (workspace : Workspace) (tree : FileTree) (path : Text) : Workspace :=
  match workspace.buffer? path with
  | some buffer =>
    workspace.put { buffer with cache := buffer.cache.rebuild tree path buffer.includes }
  | none => workspace

/-- Closes a buffer. -/
def remove (workspace : Workspace) (path : Text) : Workspace :=
  { workspace with buffers := workspace.buffers.filter (·.path ≠ path) }

/-- The buffers that include a file, in byte order. -/
def ownersOf (workspace : Workspace) (file : Text) : List Text :=
  workspace.paths.filter fun owner =>
    (workspace.buffer? owner).any fun buffer => buffer.cache.paths.contains file

/-- The included files, each with the buffers that include it. -/
def includedBy (workspace : Workspace) : List (Text × List Text) :=
  let files := workspace.paths.flatMap fun owner =>
    ((workspace.buffer? owner).map (·.cache.paths)).getD []
  (Text.distinct files).map fun file => (file, workspace.ownersOf file)

/-- A buffer as the subject of a query. -/
def source? (workspace : Workspace) (tree : FileTree) (path : Text) : Option Source :=
  (workspace.buffer? path).map fun buffer =>
    ⟨buffer.path, buffer.lines, .known (buffer.cache.symbols tree), workspace.config.options⟩

/-- The candidates for a request about a buffer. -/
def candidates? (workspace : Workspace) (tree : FileTree) (path : Text) (request : Request) :
    Option Candidates := do
  let source ← workspace.source? tree path
  Completion.candidates? tree source request

/-- The call tip at a position of a buffer. -/
def callTip? (workspace : Workspace) (tree : FileTree) (path : Text) (position : Position) :
    Option CallTip := do
  let source ← workspace.source? tree path
  CallTip.around? source position

end Workspace

end CMakeSense
