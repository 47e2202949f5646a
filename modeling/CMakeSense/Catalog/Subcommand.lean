import CMakeSense.Catalog.Command
import CMakeSense.Catalog.Parameter

/-! Subcommands: the keywords with which some commands select, by their first argument, the shape
of the arguments that follow. -/

namespace CMakeSense

/-- A subcommand keyword with the parameters that follow it. A subcommand whose arguments follow
no fixed scheme has no parameters. -/
structure Subcommand where
  keyword : Text
  parameters? : Option (List Parameter)

namespace Subcommand

/-- A subcommand whose parameters are the given slots. -/
def fixed (keyword : String) (slots : List String) : Subcommand :=
  ⟨utf8 keyword, some (slots.map fun slot => Parameter.parse (utf8 slot))⟩

/-- A subcommand whose arguments follow no fixed scheme. -/
def free (keyword : String) : Subcommand := ⟨utf8 keyword, none⟩

/-- The keywords of `cmake_policy`. -/
def policy : List Subcommand := [
  .fixed "GET" ["policy_number", "output_variable"],
  .fixed "POP" [],
  .fixed "PUSH" [],
  .fixed "SET" ["policy_number", "behavior"],
  .fixed "VERSION" ["version_number"]]

/-- The keywords of `define_property`. -/
def definedObject : List Subcommand := [
  .free "CACHED_VARIABLE",
  .free "DIRECTORY",
  .free "GLOBAL",
  .free "SOURCE",
  .free "TARGET",
  .free "TEST",
  .free "VARIABLE"]

/-- The keywords of `export`. -/
def exported : List Subcommand := [
  .fixed "PACKAGE" ["name"],
  .free "TARGETS"]

/-- The keywords of `file`. -/
def file : List Subcommand := [
  .fixed "APPEND" ["filename", "message"],
  .fixed "DOWNLOAD" ["url", "filename"],
  .fixed "GLOB" ["variable", "glob ..."],
  .fixed "GLOB_RECURSE" ["variable", "glob ..."],
  .fixed "MAKE_DIRECTORY" ["directory ..."],
  .fixed "MD5" ["filename", "variable"],
  .fixed "READ" ["filename", "variable"],
  .fixed "RELATIVE_PATH" ["variable", "directory", "filename"],
  .fixed "REMOVE" ["filename ..."],
  .fixed "REMOVE_RECURSE" ["filename ..."],
  .fixed "RENAME" ["old_name", "new_name"],
  .fixed "SHA1" ["filename", "variable"],
  .fixed "SHA224" ["filename", "variable"],
  .fixed "SHA256" ["filename", "variable"],
  .fixed "SHA384" ["filename", "variable"],
  .fixed "SHA512" ["filename", "variable"],
  .fixed "STRINGS" ["filename", "variable"],
  .fixed "TO_CMAKE_PATH" ["path", "variable"],
  .fixed "TO_NATIVE_PATH" ["path", "variable"],
  .fixed "UPLOAD" ["filename", "url"],
  .fixed "WRITE" ["filename", "message"]]

/-- The keywords of `install`. -/
def installed : List Subcommand := [
  .free "CODE",
  .free "DIRECTORY",
  .free "EXPORT",
  .free "FILES",
  .free "PROGRAMS",
  .free "SCRIPT",
  .free "TARGETS"]

/-- The keywords of `list`. -/
def list : List Subcommand := [
  .fixed "APPEND" ["list", "element ..."],
  .fixed "FIND" ["list", "value", "output_variable"],
  .fixed "GET" ["list", "index", "output_variable"],
  .fixed "INSERT" ["list", "index", "element ..."],
  .fixed "LENGTH" ["list", "output_variable"],
  .fixed "REMOVE_AT" ["list", "index ..."],
  .fixed "REMOVE_DUPLICATES" ["list"],
  .fixed "REMOVE_ITEM" ["list", "value ..."],
  .fixed "REVERSE" ["list"],
  .fixed "SORT" ["list"]]

/-- The keywords of `set_property`. -/
def propertyObject : List Subcommand := [
  .free "CACHE",
  .free "DIRECTORY",
  .free "GLOBAL",
  .free "SOURCE",
  .free "TARGET",
  .free "TEST"]

/-- The keywords of `string`. -/
def string : List Subcommand := [
  .fixed "ASCII" ["number", "output_variable"],
  .fixed "CONFIGURE" ["string", "output_variable"],
  .fixed "FIND" ["string", "substring", "output_variable"],
  .fixed "LENGTH" ["string", "output_variable"],
  .fixed "MD5" ["output_variable", "input"],
  .fixed "RANDOM" ["output_variable"],
  .free "REGEX",
  .fixed "REPLACE" ["match_string", "replace_string", "output_variable", "input ..."],
  .fixed "SHA1" ["output_variable", "input"],
  .fixed "SHA224" ["output_variable", "input"],
  .fixed "SHA256" ["output_variable", "input"],
  .fixed "SHA384" ["output_variable", "input"],
  .fixed "SHA512" ["output_variable", "input"],
  .fixed "STRIP" ["string", "output_variable"],
  .fixed "SUBSTRING" ["string", "begin_index", "length", "output_variable"],
  .fixed "TOLOWER" ["string", "output_variable"],
  .fixed "TOUPPER" ["string", "output_variable"]]

end Subcommand

namespace Command

/-- The subcommands of a command in lexical order, for a command that has any. -/
def subcommands? : Command → Option (List Subcommand)
  | .cmakePolicy => some Subcommand.policy
  | .defineProperty => some Subcommand.definedObject
  | .exportTargets => some Subcommand.exported
  | .file => some Subcommand.file
  | .install => some Subcommand.installed
  | .list => some Subcommand.list
  | .setProperty => some Subcommand.propertyObject
  | .string => some Subcommand.string
  | _ => none

/-- The subcommand keywords of a command in lexical order. -/
def subcommandKeywords (command : Command) : List Text :=
  (command.subcommands?.getD []).map (·.keyword)

/-- The parameters of the subcommand that a word selects, in any letter case. -/
def subcommandParameters? (command : Command) (word : Text) : Option (List Parameter) := do
  let subcommands ← command.subcommands?
  let selected ← subcommands.find? (·.keyword == word.toUpper)
  selected.parameters?

end Command

end CMakeSense
