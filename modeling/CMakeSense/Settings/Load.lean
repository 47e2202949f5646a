import CMakeSense.FileTree.Basic
import CMakeSense.Settings.Decoding

/-! Finding the configuration of a project. It is read from a settings file in the directory of a
script or the nearest directory above it; what the file leaves out keeps its default. A
configuration that was read from a file offers all subdirectories or those with a script, and polls
at a positive interval. How the text of a settings file is decoded is a parameter, which stands for
YAML (`Settings.yaml`) where nothing else is said. -/

namespace CMakeSense

namespace Settings

/-- A reader of settings texts: it overwrites fields of a configuration with what a text says of
them, or fails with a message. -/
abbrev Decoder := Config → Text → Except Text Config

/-- Settings texts are YAML documents. -/
def yaml : Decoder := fun config content => (decode config content).mapError Fault.message

end Settings

namespace Config

/-- Why a settings file gives no configuration. -/
inductive Error where
  | unreadable (error : FileError)
  | malformed (reason : Text)
  | badSubdirectories (path value : Text)
  | badInterval (path : Text)

def Error.message : Error → Text
  | .unreadable error => utf8 "failed to read config file: " ++ error.message
  | .malformed reason => utf8 "failed to parse config YAML: " ++ reason
  | .badSubdirectories path value =>
    path ++ utf8 ": subdirectories must be " ++ everySubdirectory.quoted ++ utf8 " or " ++
      scriptSubdirectories.quoted ++ utf8 ", got " ++ value.quoted
  | .badInterval path => path ++ utf8 ": watch_interval must be positive"

/-- Checks the fields of a configuration that was read from a file, and takes a relative modules
directory as seen from that file. -/
def check (path : Text) (config : Config) : Except Error Config :=
  if config.subdirectories ≠ everySubdirectory ∧ config.subdirectories ≠ scriptSubdirectories then
    .error (.badSubdirectories path config.subdirectories)
  else if config.watchInterval ≤ 0 then .error (.badInterval path)
  else if config.modulesDir = [] || Path.isAbsolute config.modulesDir then .ok config
  else .ok { config with modulesDir := Path.join (Path.dir path) config.modulesDir }

/-- Reads a settings file. -/
def load (tree : FileTree) (path : Text) (decode : Settings.Decoder := Settings.yaml) :
    Except Error Config :=
  match tree.readFile path with
  | .error error => .error (.unreadable error)
  | .ok content =>
    match decode default content with
    | .error reason => .error (.malformed reason)
    | .ok config => check path config

/-- The name of settings files. -/
def fileName : Text := utf8 ".cmakels.yaml"

/-- The configuration for a directory, with the path of its settings file, or an empty path when
neither the directory nor one above it has one. The root is the directory above itself. -/
def climb (tree : FileTree) (decode : Settings.Decoder) (dir : Text) :
    Except Error (Config × Text) :=
  let path := Path.join dir fileName
  if tree.has path then (load tree path decode).map (·, path)
  else if Path.dir dir = dir then .ok (default, [])
  else climb tree decode (Path.dir dir)
termination_by Path.height dir
decreasing_by exact Path.height_dir_lt ‹_›

/-- The settings files that can count for a directory, the nearest first. The directory is given by
the names that lead to it. -/
def candidates (place : Place) : List Text :=
  (List.range (place.length + 1)).map fun k =>
    Path.join (Ascii.slash :: Text.join [Ascii.slash] (place.take (place.length - k))) fileName

/-- The configuration for a directory, given by any path. -/
def find (tree : FileTree) (dir : Text) (decode : Settings.Decoder := Settings.yaml) :
    Except Error (Config × Text) :=
  climb tree decode (Path.absolute tree.workingPath dir)

end Config

end CMakeSense
