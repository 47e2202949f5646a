import CMakeSense.CommandLine.Run

/-! The program. It reads the files around the working directory and its arguments into a file
tree, runs the command line against that tree, and writes what the run leaves behind. -/

namespace CMakeSense.Main

/-- How many levels of directories are read. -/
def searchDepth : Nat := 8

/-- A text as a string; bytes that are no UTF-8 are replaced. -/
def string (t : Text) : String := (String.fromUTF8? ⟨(Utf8.repair t).toArray⟩).getD ""

/-- The content of a file; none where it cannot be read. -/
def content? (path : String) : IO (Option Text) := do
  try return some (← IO.FS.readBinFile path).data.toList
  catch _ => return none

/-- Adds the file at an absolute path to a tree whose working directory is the root. -/
def addFile (tree : FileTree) (path : String) : IO FileTree := do
  match ← content? path with
  | some content => return tree.writeFile (utf8 path) content 0
  | none => return tree

/-- Adds a directory with all that is below it, down to a depth, to a tree whose working directory
is the root. Hidden directories are not entered. -/
def addDirectory (tree : FileTree) (path : String) : Nat → IO FileTree
  | 0 => return tree
  | depth + 1 => do
    let here ← IO.currentDir
    let mut tree := tree.makeDirectory (utf8 path)
    let entries ← try (here / path).readDir catch _ => pure #[]
    for entry in entries do
      let below := path ++ "/" ++ entry.fileName
      if ← entry.path.isDir then
        if FileTree.isHidden (utf8 entry.fileName) then
          tree := tree.makeDirectory (utf8 below)
        else
          tree ← addDirectory tree below depth
      else
        tree ← addFile tree below
    return tree

/-- The directories that a run may look at: the working directory, that of each argument, and the
modules directory of the environment. -/
def searched (working modulesDir : Text) (arguments : List Text) : List Text :=
  let named := arguments.map fun argument => Path.dir (Path.absolute working argument)
  let modules := if modulesDir.isEmpty then [] else [Path.absolute working modulesDir]
  (Text.distinct (working :: named ++ modules)).filter (· ≠ [Ascii.slash])

/-- Reads the surroundings of a run. -/
def surroundings (arguments : List Text) : IO CommandLine.Surroundings := do
  let working := utf8 (← IO.currentDir).toString
  let modulesDir := utf8 ((← IO.getEnv "CMAKE_MODULES_DIR").getD "")
  let mut tree := FileTree.empty []
  for dir in searched working modulesDir arguments do
    tree ← addDirectory tree (string dir) searchDepth
    for settings in Config.candidates (Path.components dir) do
      tree ← addFile tree (string settings)
  return ⟨{ tree with working := Path.components working }, modulesDir⟩

/-- Runs the command line; the exit code is one when it fails. -/
def run (arguments : List String) : IO UInt32 := do
  let arguments := arguments.map utf8
  let outcome := CommandLine.run (← surroundings arguments) arguments
  (← IO.getStdout).write ⟨outcome.output.toArray⟩
  (← IO.getStderr).write ⟨outcome.complaint.toArray⟩
  return if outcome.error?.isSome then 1 else 0

end CMakeSense.Main

def main (arguments : List String) : IO UInt32 := CMakeSense.Main.run arguments
