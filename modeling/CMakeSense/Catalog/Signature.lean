import CMakeSense.Catalog.Command
import CMakeSense.Catalog.Parameter

/-! The signatures of the commands that have a fixed one. A command without arguments has an
empty signature; a command whose arguments follow no fixed scheme has none. -/

namespace CMakeSense.Command

/-- The parameters of a command, when its signature is known. -/
def parameters? : Command → Option (List Parameter)
  | .addCompileDefinitions => shape ["definition ..."]
  | .addCompileOptions => shape ["option ..."]
  | .addCustomTarget => shape ["name", "[command ...]"]
  | .addDefinitions => shape ["flag ..."]
  | .addDependencies => shape ["target_name", "depend_target ..."]
  | .addExecutable => shape ["name", "source ..."]
  | .addLibrary => shape ["name", "source ..."]
  | .addLinkOptions => shape ["option ..."]
  | .addSubdirectory => shape ["source_dir", "[binary_dir]"]
  | .addTest => shape ["test_name", "exe_name", "arg ..."]
  | .auxSourceDirectory => shape ["dir", "variable"]
  | .breakLoop => shape []
  | .buildCommand => shape ["variable"]
  | .cmakeMinimumRequired => shape ["VERSION", "version"]
  | .cmakeParseArguments =>
    shape ["prefix", "options", "one_value_keywords", "multi_value_keywords", "arg ..."]
  | .configureFile => shape ["input", "output"]
  | .continueLoop => shape []
  | .elseBranch => shape ["[expression]"]
  | .elseIfBranch => shape ["expression"]
  | .enableLanguage => shape ["language_name"]
  | .enableTesting => shape []
  | .endForEachLoop => shape ["[expression]"]
  | .endFunctionDefinition => shape ["[name]"]
  | .endIfBranch => shape ["[expression]"]
  | .endMacroDefinition => shape ["[name]"]
  | .endWhileLoop => shape ["[expression]"]
  | .findFile => shape ["variable", "name", "[path ...]"]
  | .findLibrary => shape ["variable", "name", "[path ...]"]
  | .findPath => shape ["variable", "name", "[path ...]"]
  | .findProgram => shape ["variable", "name", "[path ...]"]
  | .fltkWrapUi => shape ["resulting_library_name", "source ..."]
  | .forEachLoop => shape ["loop_variable", "arg ..."]
  | .functionDefinition => shape ["name", "arg ..."]
  | .getCmakeProperty => shape ["variable", "property"]
  | .getDirectoryProperty => shape ["variable", "property"]
  | .getFilenameComponent => shape ["variable", "filename", "component"]
  | .getSourceFileProperty => shape ["variable", "filename", "property"]
  | .getTargetProperty => shape ["variable", "target", "property"]
  | .getTestProperty => shape ["test", "property", "variable"]
  | .ifBranch => shape ["expression"]
  | .includeFile => shape ["file", "[OPTIONAL]"]
  | .includeDirectories => shape ["directory ..."]
  | .includeExternalMsproject => shape ["project_name", "location", "dependency ..."]
  | .includeRegularExpression => shape ["regex_match", "[regex_complain]"]
  | .linkDirectories => shape ["directory ..."]
  | .linkLibraries => shape ["library ..."]
  | .macroDefinition => shape ["name", "arg ..."]
  | .markAsAdvanced => shape ["variable ..."]
  | .math => shape ["EXPR", "output_variable", "expression"]
  | .message => shape ["[mode]", "message"]
  | .option => shape ["variable", "help_string", "[initial_value]"]
  | .project => shape ["project_name", "[language ...]"]
  | .removeDefinitions => shape ["flag ..."]
  | .returnCall => shape []
  | .separateArguments => shape ["variable"]
  | .setVariable => shape ["variable", "value"]
  | .siteName => shape ["variable"]
  | .sourceGroup => shape ["name"]
  | .targetCompileDefinitions => shape ["target", "scope", "definition ..."]
  | .targetCompileFeatures => shape ["target", "scope", "feature ..."]
  | .targetCompileOptions => shape ["target", "scope", "option ..."]
  | .targetIncludeDirectories => shape ["target", "scope", "directory ..."]
  | .targetLinkDirectories => shape ["target", "scope", "directory ..."]
  | .targetLinkLibraries => shape ["target", "item ..."]
  | .targetLinkOptions => shape ["target", "scope", "option ..."]
  | .targetSources => shape ["target", "scope", "source ..."]
  | .unsetVariable => shape ["variable"]
  | .variableWatch => shape ["variable", "[command]"]
  | .whileLoop => shape ["expression"]
  | .addCustomCommand | .cmakePolicy | .createTestSourcelist | .defineProperty | .executeProcess |
    .exportTargets | .file | .findPackage | .getProperty | .includeGuard | .install | .list |
    .loadCache | .loadCommand | .qtWrapCpp | .qtWrapUi | .setDirectoryProperties | .setProperty |
    .setSourceFilesProperties | .setTargetProperties | .setTestsProperties | .string | .tryCompile |
    .tryRun => none
where
  shape (slots : List String) : Option (List Parameter) :=
    some (slots.map fun slot => Parameter.parse (utf8 slot))

/-- The one-line summary of a command, when its signature is known. -/
def summary? (command : Command) : Option Text :=
  command.parameters?.map (Parameter.call command.name)

end CMakeSense.Command
