import CMakeSense.Workspace.Basic

/-! The symbols of a buffer: what it defines, what it refers to, and the files that the references
lead to. -/

namespace CMakeSense

/-- What a script defines and refers to. -/
structure ScriptSymbols where
  path : Text
  normalVariables : List Text
  envVariables : List Text
  cacheVariables : List Text
  functions : List Text
  macros : List Text
  targets : List Text
  tests : List Text
  includes : List Include
  /-- The files that references lead to, by the name of the reference. -/
  resolved : List (Text × Text)

namespace ScriptSymbols

/-- Notes the file that a reference leads to. A later reference of the same name takes the place of
an earlier one. -/
def putResolution (resolved : List (Text × Text)) (name path : Text) : List (Text × Text) :=
  resolved.filter (·.1 ≠ name) ++ [(name, path)]

/-- The files that the references of a buffer lead to. -/
def resolutions (tree : FileTree) (buffer : Buffer) : List (Text × Text) :=
  buffer.includes.foldl (fun resolved reference =>
    match buffer.cache.resolve? tree (Path.dir buffer.path) reference with
    | some path => putResolution resolved reference.name path
    | none => resolved) []

def ofBuffer (tree : FileTree) (buffer : Buffer) : ScriptSymbols :=
  let relined := Script.lines buffer.content
  { path := buffer.path
    normalVariables := Script.normalVariables relined
    envVariables := Script.envVariables relined
    cacheVariables := Script.cacheVariables relined
    functions := Script.functions buffer.lines
    macros := Script.macros buffer.lines
    targets := Script.targets buffer.lines
    tests := Script.tests buffer.lines
    includes := buffer.includes
    resolved := resolutions tree buffer }

end ScriptSymbols

end CMakeSense
