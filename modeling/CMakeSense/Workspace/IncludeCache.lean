import CMakeSense.FileTree.Basic
import CMakeSense.Query.Source
import CMakeSense.Script.Definition

/-! The names that the files included by a buffer define. A cache is rebuilt from a list of
includes against a file tree; it remembers the files it found, in the order of the includes, and
the includes that led to no file. -/

namespace CMakeSense

/-- The names that one included file defines. -/
structure IncludeCache.Entry where
  path : Text
  normalVariables : List Text
  envVariables : List Text
  cacheVariables : List Text
  functions : List Text
  macros : List Text
  deriving DecidableEq, Repr

structure IncludeCache where
  modulesDir : Text
  /-- The directory that includes were looked up from at the last rebuild. -/
  dir : Text
  entries : List IncludeCache.Entry
  /-- The includes that led to no file at the last rebuild. -/
  unresolved : List Include
  deriving DecidableEq, Repr

namespace Include

/-- Whether a name depends on a variable, so that it leads nowhere before the script runs. -/
def isDynamic (reference : Include) : Bool := Text.occursIn (utf8 "$\x7b") reference.name

/-- The file names that a reference can mean, the likeliest first. -/
def fileNames (reference : Include) : List Text :=
  if reference.isPackage then [utf8 "Find" ++ reference.name ++ utf8 ".cmake"]
  else [reference.name, reference.name ++ utf8 ".cmake"]

/-- The paths that a reference can mean, the likeliest first: next to the script and then in the
modules directory, unless the reference is absolute. -/
def paths (reference : Include) (dir modulesDir : Text) : List Text :=
  if Path.isAbsolute reference.name && !reference.isPackage then reference.fileNames
  else ([dir, modulesDir].filter (!·.isEmpty)).flatMap fun base =>
    reference.fileNames.map (Path.join base)

/-- The file that a reference means. -/
def resolve? (reference : Include) (tree : FileTree) (dir modulesDir : Text) : Option Text :=
  if reference.isDynamic then none else (reference.paths dir modulesDir).find? tree.isFile

end Include

namespace IncludeCache

/-- The cache before its first rebuild. -/
def new (modulesDir : Text) : IncludeCache := ⟨modulesDir, [], [], []⟩

/-- The file that a reference in a script of a directory means. -/
def resolve? (cache : IncludeCache) (tree : FileTree) (dir : Text) (reference : Include) :
    Option Text :=
  reference.resolve? tree dir cache.modulesDir

/-- The names that a script defines. -/
def Entry.ofContent (path content : Text) : Entry :=
  let lines := Script.lines content
  ⟨path, Script.normalVariables lines, Script.envVariables lines, Script.cacheVariables lines,
    Script.functions lines, Script.macros lines⟩

/-- The names that the file at a path defines. -/
def Entry.read? (tree : FileTree) (path : Text) : Option Entry :=
  (tree.readFile path).toOption.map (ofContent path)

/-- Whether a file defines a function or macro of the given name, in any letter case. -/
def Entry.defines (entry : Entry) (name : Text) : Bool :=
  entry.functions.any (·.equalFold name) || entry.macros.any (·.equalFold name)

/-- The cache for the includes of the script at a path. -/
def rebuild (cache : IncludeCache) (tree : FileTree) (path : Text) (includes : List Include) :
    IncludeCache :=
  let dir := Path.dir path
  { cache with
    dir
    entries :=
      (Text.distinct (includes.filterMap (cache.resolve? tree dir))).filterMap (Entry.read? tree)
    unresolved := includes.filter fun reference =>
      (cache.resolve? tree dir reference).isNone && !reference.isDynamic }

/-- Whether an include that led to no file at the last rebuild leads to one now. -/
def hasAppeared (cache : IncludeCache) (tree : FileTree) : Bool :=
  cache.unresolved.any fun reference => (cache.resolve? tree cache.dir reference).isSome

/-- The paths of the files in the cache. -/
def paths (cache : IncludeCache) : List Text := cache.entries.map (·.path)

/-- The names in one list of all files together, in byte order. -/
def collect (cache : IncludeCache) (field : Entry → List Text) : List Text :=
  Text.sort (Text.distinct (cache.entries.flatMap field))

/-- The parameters of a function or macro, read from the file that defines it as the file is
now. -/
def parameters? (cache : IncludeCache) (tree : FileTree) (name : Text) : Option (List Text) :=
  cache.entries.findSome? fun entry =>
    if entry.defines name then
      (tree.readFile entry.path).toOption.bind fun content =>
        Script.functionParameters? (Script.lines content) name
    else none

/-- What a buffer knows of the files it includes. -/
def symbols (cache : IncludeCache) (tree : FileTree) : SymbolTable where
  normalVariables := cache.collect (·.normalVariables)
  envVariables := cache.collect (·.envVariables)
  cacheVariables := cache.collect (·.cacheVariables)
  functions := cache.collect (·.functions)
  macros := cache.collect (·.macros)
  parameters? := cache.parameters? tree

end IncludeCache

end CMakeSense
