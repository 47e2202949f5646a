import CMakeSense.Catalog.Language
import CMakeSense.FileTree.Basic

/-! What the directory of a script and the directory of shared modules offer: files to include,
packages to find, subdirectories, sources and languages. -/

namespace CMakeSense.FileTree

/-- The ending of script files. -/
def scriptEnding : Text := utf8 ".cmake"

/-- The names of the regular files in a directory. -/
def fileNames (tree : FileTree) (dir : Text) : List Text :=
  ((tree.list dir).filter (!·.2.isDirectory)).map (·.1)

/-- The name under which a file next to a script is included: the file name itself. The generated
installation script is not offered. -/
def localInclude? (name : Text) : Option Text :=
  if scriptEnding.isSuffixOf name && name ≠ utf8 "cmake_install.cmake" then some name else none

/-- The name under which a shared module is included: its file name without the ending. Modules
that find packages are not offered. -/
def moduleInclude? (name : Text) : Option Text :=
  if (utf8 "Find").isPrefixOf name then none else Text.dropSuffix? scriptEnding name

/-- The files that a script in `dir` can include. -/
def includeFiles (tree : FileTree) (dir modulesDir : Text) : List Text :=
  (tree.fileNames dir).filterMap localInclude? ++
    (tree.fileNames modulesDir).filterMap moduleInclude?

/-- The package that a file finds. -/
def package? (name : Text) : Option Text := do
  let rest ← Text.dropPrefix? (utf8 "Find") name
  if scriptEnding.isSuffixOf name then
    let package := Text.trimSuffix scriptEnding rest
    if package = [] then none else some package
  else none

/-- The packages that a script in `dir` can find. -/
def packages (tree : FileTree) (dir modulesDir : Text) : List Text :=
  (tree.fileNames dir).filterMap package? ++ (tree.fileNames modulesDir).filterMap package?

/-- The subdirectories of a directory, without the hidden ones and, on demand, without those that
hold no script of their own. -/
def subdirectories (tree : FileTree) (dir : Text) (requireLists : Bool) : List Text :=
  ((tree.list dir).filter fun (name, entry) =>
    entry.isDirectory && !isHidden name &&
      (!requireLists || tree.has (Path.join (Path.join dir name) (utf8 "CMakeLists.txt")))).map
    (·.1)

/-- The files of a directory, without the hidden ones. -/
def sourceFiles (tree : FileTree) (dir : Text) : List Text :=
  (tree.fileNames dir).filter (!isHidden ·)

/-- The bytes of an unaccented word. -/
def isWordByte (c : UInt8) : Bool := Ascii.isLetter c || Ascii.isDigit c || c == 0x5f

/-- The language that a module describes. -/
def language? (name : Text) : Option Text := do
  let rest ← Text.dropPrefix? (utf8 "CMake") name
  let language ← Text.dropSuffix? (utf8 "Information.cmake") rest
  if language ≠ [] && language.all isWordByte then some language else none

/-- The languages that the modules of a directory describe. -/
def moduleLanguages (tree : FileTree) (modulesDir : Text) : List Text :=
  (tree.list modulesDir).filterMap fun (name, _) => language? name

/-- The languages that can be enabled, in byte order. -/
def languages (tree : FileTree) (modulesDir : Text) : List Text :=
  Text.sort (Text.distinct (Language.builtIn ++ tree.moduleLanguages modulesDir))

end CMakeSense.FileTree
