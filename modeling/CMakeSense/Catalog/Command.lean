import CMakeSense.Text.Casing

/-! The built-in commands. Commands are numbered from one in the order of their names, and a
number that belongs to no command stands for the absence of one. Names are looked up without
regard to letter case. -/

namespace CMakeSense

/-- A built-in command. -/
inductive Command where
  | addCompileDefinitions | addCompileOptions | addCustomCommand | addCustomTarget | addDefinitions
  | addDependencies | addExecutable | addLibrary | addLinkOptions | addSubdirectory | addTest
  | auxSourceDirectory | breakLoop | buildCommand | cmakeMinimumRequired | cmakeParseArguments
  | cmakePolicy | configureFile | continueLoop | createTestSourcelist | defineProperty | elseBranch
  | elseIfBranch | enableLanguage | enableTesting | endForEachLoop | endFunctionDefinition
  | endIfBranch | endMacroDefinition | endWhileLoop | executeProcess | exportTargets | file
  | findFile | findLibrary | findPackage | findPath | findProgram | fltkWrapUi | forEachLoop
  | functionDefinition | getCmakeProperty | getDirectoryProperty | getFilenameComponent
  | getProperty | getSourceFileProperty | getTargetProperty | getTestProperty | ifBranch
  | includeFile | includeDirectories | includeExternalMsproject | includeGuard
  | includeRegularExpression | install | linkDirectories | linkLibraries | list | loadCache
  | loadCommand | macroDefinition | markAsAdvanced | math | message | option | project | qtWrapCpp
  | qtWrapUi | removeDefinitions | returnCall | separateArguments | setVariable
  | setDirectoryProperties | setProperty | setSourceFilesProperties | setTargetProperties
  | setTestsProperties | siteName | sourceGroup | string | targetCompileDefinitions
  | targetCompileFeatures | targetCompileOptions | targetIncludeDirectories | targetLinkDirectories
  | targetLinkLibraries | targetLinkOptions | targetSources | tryCompile | tryRun | unsetVariable
  | variableWatch | whileLoop
  deriving DecidableEq, Repr

namespace Command

/-- The commands in lexical order of their names. -/
def all : List Command := [
  .addCompileDefinitions, .addCompileOptions, .addCustomCommand, .addCustomTarget, .addDefinitions,
  .addDependencies, .addExecutable, .addLibrary, .addLinkOptions, .addSubdirectory, .addTest,
  .auxSourceDirectory, .breakLoop, .buildCommand, .cmakeMinimumRequired, .cmakeParseArguments,
  .cmakePolicy, .configureFile, .continueLoop, .createTestSourcelist, .defineProperty, .elseBranch,
  .elseIfBranch, .enableLanguage, .enableTesting, .endForEachLoop, .endFunctionDefinition,
  .endIfBranch, .endMacroDefinition, .endWhileLoop, .executeProcess, .exportTargets, .file,
  .findFile, .findLibrary, .findPackage, .findPath, .findProgram, .fltkWrapUi, .forEachLoop,
  .functionDefinition, .getCmakeProperty, .getDirectoryProperty, .getFilenameComponent,
  .getProperty, .getSourceFileProperty, .getTargetProperty, .getTestProperty, .ifBranch,
  .includeFile, .includeDirectories, .includeExternalMsproject, .includeGuard,
  .includeRegularExpression, .install, .linkDirectories, .linkLibraries, .list, .loadCache,
  .loadCommand, .macroDefinition, .markAsAdvanced, .math, .message, .option, .project, .qtWrapCpp,
  .qtWrapUi, .removeDefinitions, .returnCall, .separateArguments, .setVariable,
  .setDirectoryProperties, .setProperty, .setSourceFilesProperties, .setTargetProperties,
  .setTestsProperties, .siteName, .sourceGroup, .string, .targetCompileDefinitions,
  .targetCompileFeatures, .targetCompileOptions, .targetIncludeDirectories, .targetLinkDirectories,
  .targetLinkLibraries, .targetLinkOptions, .targetSources, .tryCompile, .tryRun, .unsetVariable,
  .variableWatch, .whileLoop]

/-- The name that scripts call a command by, in lower case. -/
def name : Command → Text
  | .addCompileDefinitions => utf8 "add_compile_definitions"
  | .addCompileOptions => utf8 "add_compile_options"
  | .addCustomCommand => utf8 "add_custom_command"
  | .addCustomTarget => utf8 "add_custom_target"
  | .addDefinitions => utf8 "add_definitions"
  | .addDependencies => utf8 "add_dependencies"
  | .addExecutable => utf8 "add_executable"
  | .addLibrary => utf8 "add_library"
  | .addLinkOptions => utf8 "add_link_options"
  | .addSubdirectory => utf8 "add_subdirectory"
  | .addTest => utf8 "add_test"
  | .auxSourceDirectory => utf8 "aux_source_directory"
  | .breakLoop => utf8 "break"
  | .buildCommand => utf8 "build_command"
  | .cmakeMinimumRequired => utf8 "cmake_minimum_required"
  | .cmakeParseArguments => utf8 "cmake_parse_arguments"
  | .cmakePolicy => utf8 "cmake_policy"
  | .configureFile => utf8 "configure_file"
  | .continueLoop => utf8 "continue"
  | .createTestSourcelist => utf8 "create_test_sourcelist"
  | .defineProperty => utf8 "define_property"
  | .elseBranch => utf8 "else"
  | .elseIfBranch => utf8 "elseif"
  | .enableLanguage => utf8 "enable_language"
  | .enableTesting => utf8 "enable_testing"
  | .endForEachLoop => utf8 "endforeach"
  | .endFunctionDefinition => utf8 "endfunction"
  | .endIfBranch => utf8 "endif"
  | .endMacroDefinition => utf8 "endmacro"
  | .endWhileLoop => utf8 "endwhile"
  | .executeProcess => utf8 "execute_process"
  | .exportTargets => utf8 "export"
  | .file => utf8 "file"
  | .findFile => utf8 "find_file"
  | .findLibrary => utf8 "find_library"
  | .findPackage => utf8 "find_package"
  | .findPath => utf8 "find_path"
  | .findProgram => utf8 "find_program"
  | .fltkWrapUi => utf8 "fltk_wrap_ui"
  | .forEachLoop => utf8 "foreach"
  | .functionDefinition => utf8 "function"
  | .getCmakeProperty => utf8 "get_cmake_property"
  | .getDirectoryProperty => utf8 "get_directory_property"
  | .getFilenameComponent => utf8 "get_filename_component"
  | .getProperty => utf8 "get_property"
  | .getSourceFileProperty => utf8 "get_source_file_property"
  | .getTargetProperty => utf8 "get_target_property"
  | .getTestProperty => utf8 "get_test_property"
  | .ifBranch => utf8 "if"
  | .includeFile => utf8 "include"
  | .includeDirectories => utf8 "include_directories"
  | .includeExternalMsproject => utf8 "include_external_msproject"
  | .includeGuard => utf8 "include_guard"
  | .includeRegularExpression => utf8 "include_regular_expression"
  | .install => utf8 "install"
  | .linkDirectories => utf8 "link_directories"
  | .linkLibraries => utf8 "link_libraries"
  | .list => utf8 "list"
  | .loadCache => utf8 "load_cache"
  | .loadCommand => utf8 "load_command"
  | .macroDefinition => utf8 "macro"
  | .markAsAdvanced => utf8 "mark_as_advanced"
  | .math => utf8 "math"
  | .message => utf8 "message"
  | .option => utf8 "option"
  | .project => utf8 "project"
  | .qtWrapCpp => utf8 "qt_wrap_cpp"
  | .qtWrapUi => utf8 "qt_wrap_ui"
  | .removeDefinitions => utf8 "remove_definitions"
  | .returnCall => utf8 "return"
  | .separateArguments => utf8 "separate_arguments"
  | .setVariable => utf8 "set"
  | .setDirectoryProperties => utf8 "set_directory_properties"
  | .setProperty => utf8 "set_property"
  | .setSourceFilesProperties => utf8 "set_source_files_properties"
  | .setTargetProperties => utf8 "set_target_properties"
  | .setTestsProperties => utf8 "set_tests_properties"
  | .siteName => utf8 "site_name"
  | .sourceGroup => utf8 "source_group"
  | .string => utf8 "string"
  | .targetCompileDefinitions => utf8 "target_compile_definitions"
  | .targetCompileFeatures => utf8 "target_compile_features"
  | .targetCompileOptions => utf8 "target_compile_options"
  | .targetIncludeDirectories => utf8 "target_include_directories"
  | .targetLinkDirectories => utf8 "target_link_directories"
  | .targetLinkLibraries => utf8 "target_link_libraries"
  | .targetLinkOptions => utf8 "target_link_options"
  | .targetSources => utf8 "target_sources"
  | .tryCompile => utf8 "try_compile"
  | .tryRun => utf8 "try_run"
  | .unsetVariable => utf8 "unset"
  | .variableWatch => utf8 "variable_watch"
  | .whileLoop => utf8 "while"

/-- The number of a command. -/
def code (command : Command) : Nat := command.ctorIdx + 1

/-- The command with a number. -/
def ofCode? : Nat → Option Command
  | 0 => none
  | n + 1 => all[n]?

/-- The command that a word names, in any letter case. -/
def ofName? (word : Text) : Option Command :=
  let lower := word.toLower
  all.find? (·.name == lower)

/-- The names of all commands in lexical order. -/
def names : List Text := all.map name

theorem getElem?_all (command : Command) : all[command.ctorIdx]? = some command := by
  cases command <;> rfl

/-- A command is found again by its number. -/
@[simp] theorem ofCode?_code (command : Command) : ofCode? command.code = some command :=
  getElem?_all command

theorem code_lt (command : Command) : command.code < 256 := by
  cases command <;> decide

end Command

end CMakeSense
