import CMakeSense.Catalog.Property
import CMakeSense.Catalog.Subcommand
import CMakeSense.FileTree.Listing
import CMakeSense.Query.Candidates
import CMakeSense.Query.Source
import CMakeSense.Script.Definition

/-! Strategies for the arguments of commands. Which strategy completes an argument depends on the
command and on whether the request comes from the opening parenthesis, when no argument has been
written, or from a separator, when some may have been. -/

namespace CMakeSense

/-- A way to complete an argument. -/
inductive Strategy where
  | includes
  | packages
  | subdirectories
  | languages
  | targets
  | subcommands
  | sources
  /-- The object or the property of a command that reads one property of a fixed kind. -/
  | readProperty
  /-- The objects, property names and values of a command that writes properties of a fixed
  kind. -/
  | writeProperties
  /-- The arguments of `get_property`, which names the kind itself. -/
  | readAnyProperty
  /-- The arguments of `set_property`, which names the kind itself. -/
  | writeAnyProperty
  deriving DecidableEq, Repr

namespace Strategy

/-- The strategy for the first argument, directly after the parenthesis. -/
def afterParen? : Command → Option Strategy
  | .includeFile => some .includes
  | .findPackage => some .packages
  | .addSubdirectory => some .subdirectories
  | .enableLanguage => some .languages
  | .addDependencies | .targetLinkLibraries | .targetIncludeDirectories
  | .targetCompileDefinitions | .targetCompileOptions | .targetSources | .targetCompileFeatures
  | .targetLinkOptions | .targetLinkDirectories => some .targets
  | .setTargetProperties | .setSourceFilesProperties | .setTestsProperties
  | .setDirectoryProperties => some .writeProperties
  | .getTestProperty => some .readProperty
  | command => if command.subcommands?.isSome then some .subcommands else none

/-- The strategy for an argument after a separator. -/
def afterSpace? : Command → Option Strategy
  | .addExecutable | .addLibrary => some .sources
  | .addDependencies | .targetLinkLibraries => some .targets
  | .getTargetProperty | .getSourceFileProperty | .getTestProperty | .getDirectoryProperty
  | .getCmakeProperty => some .readProperty
  | .setTargetProperties | .setSourceFilesProperties | .setTestsProperties
  | .setDirectoryProperties => some .writeProperties
  | .getProperty => some .readAnyProperty
  | .setProperty => some .writeAnyProperty
  | _ => none

/-- The commands with a strategy directly after the parenthesis, in lexical order. -/
def parenCommands : List Command := Command.all.filter (afterParen? · |>.isSome)

/-- The commands with a strategy after a separator, in lexical order. -/
def spaceCommands : List Command := Command.all.filter (afterSpace? · |>.isSome)

section

variable (tree : FileTree) (source : Source)

def includeCandidates : Candidates :=
  Candidates.empty.addAll (tree.includeFiles source.dir source.options.modulesDir) .reference

def packageCandidates : Candidates :=
  Candidates.empty.addAll (tree.packages source.dir source.options.modulesDir) .reference

def subdirectoryCandidates : Candidates :=
  Candidates.empty.addAll (tree.subdirectories source.dir source.options.requireLists) .reference

def languageCandidates : Candidates :=
  Candidates.empty.addAll (tree.languages source.options.modulesDir) .reference

/-- The targets of the buffer that are not among the arguments yet. -/
def targetCandidates (prior : List Text) : Candidates :=
  (Candidates.unordered.addAll (Script.targets source.lines) .target).exclude prior

/-- The tests of the buffer that are not among the arguments yet. -/
def testCandidates (prior : List Text) : Candidates :=
  (Candidates.unordered.addAll (Script.tests source.lines) .target).exclude prior

/-- The cache entries in sight that are not among the arguments yet. -/
def cacheCandidates? (prior : List Text) : Option Candidates := do
  let others ← source.symbols.names? (·.cacheVariables)
  let own := Candidates.empty.addAll (Script.cacheVariables source.lines) .variableName
  some ((own.addAll others .variableName).exclude prior)

/-- The files next to the buffer and the flags of the command. Executables and libraries leave out
the files that are listed already; the first argument is the name of the target. -/
def sourceCandidates (command : Command) (prior : List Text) : Candidates :=
  let list := Candidates.empty.addAll (tree.sourceFiles source.dir) .reference
  let list := list.addAll command.flags .command
  if command = .addExecutable || command = .addLibrary then list.exclude prior.tail else list

/-- The objects of a kind: none where objects of the kind have no list. The outer option is empty
when the list cannot be made. -/
def objectCandidates (kind : ObjectKind) (command : Command) (prior : List Text) :
    Option (Option Candidates) :=
  match kind with
  | .directory => some (some (subdirectoryCandidates tree source))
  | .source => some (some (sourceCandidates tree source command prior))
  | .target => some (some (targetCandidates source prior))
  | .test => some (some (testCandidates source prior))
  | .cacheEntry => (cacheCandidates? source prior).map some
  | .unspecified | .globalScope | .variableScope => some none

end

def subcommandCandidates (command : Command) : Candidates :=
  Candidates.empty.addAll command.subcommandKeywords .command

def propertyCandidates (kind : ObjectKind) : Candidates :=
  Candidates.empty.addAll kind.properties .property

/-- Completes a command that reads one property: the property or the object, each at its place.
A directory property may name its directory after the word `DIRECTORY`. -/
def readProperty? (tree : FileTree) (source : Source) (command : Command) (prior : List Text) :
    Option Candidates := do
  let access ← command.propertyAccess?
  let properties := propertyCandidates access.kind
  let namesDirectory := command = .getDirectoryProperty && prior[1]? = some (utf8 "DIRECTORY")
  if access.propertySlot? = some prior.length then
    if command = .getDirectoryProperty then some (properties.add (utf8 "DIRECTORY") .command)
    else some properties
  else if access.objectSlot? = some prior.length then
    (objectCandidates tree source access.kind command prior).join
  else if namesDirectory && prior.length = 2 then some (subdirectoryCandidates tree source)
  else if namesDirectory && prior.length = 3 then some properties
  else none

/-- Completes a command that writes properties: objects up to the word `PROPERTIES`, then names
and values in turn, of which the names are completed. -/
def writeProperties? (tree : FileTree) (source : Source) (command : Command) (prior : List Text) :
    Option Candidates :=
  let kind := command.objectKind
  match prior.findIdx? (· = utf8 "PROPERTIES") with
  | some i => if (prior.length - i) % 2 = 1 then some (propertyCandidates kind) else none
  | none => do
    let objects? ←
      if command.objectSlot?.isSome then objectCandidates tree source kind command prior
      else some none
    let list := objects?.getD .empty
    if !prior.isEmpty || command = .setSourceFilesProperties ||
        command = .setDirectoryProperties then
      some (list.add (utf8 "PROPERTIES") .command)
    else some list

/-- Completes `get_property`: a variable, a kind, an object of that kind where it has any, the word
`PROPERTY` and the name of a property. -/
def readAnyProperty? (tree : FileTree) (source : Source) (command : Command)
    (prior : List Text) : Option Candidates :=
  match prior with
  | [] => none
  | [_] => some (Candidates.empty.addAll ObjectKind.keywords .command)
  | [_, keyword] => do
    let kind := ObjectKind.ofKeyword keyword
    let objects? ← objectCandidates tree source kind command prior
    let list := objects?.getD .empty
    if kind.requiresObject then some list else some (list.add (utf8 "PROPERTY") .command)
  | _ :: keyword :: _ :: rest =>
    if prior.getLast? = some (utf8 "PROPERTY") then
      some (propertyCandidates (ObjectKind.ofKeyword keyword))
    else if rest.isEmpty then some (Candidates.empty.add (utf8 "PROPERTY") .command)
    else none

/-- Completes `set_property`: a kind, objects of that kind, modes, the word `PROPERTY` and the name
of a property; values are not completed. -/
def writeAnyProperty? (tree : FileTree) (source : Source) (command : Command)
    (prior : List Text) : Option Candidates :=
  match prior with
  | [] => none
  | keyword :: rest =>
    let kind := ObjectKind.ofKeyword keyword
    if kind = .unspecified then none
    else if prior.getLast? = some (utf8 "PROPERTY") then some (propertyCandidates kind)
    else if prior.contains (utf8 "PROPERTY") then none
    else do
      let objects? ← objectCandidates tree source kind command rest
      let list := objects?.getD .empty
      if !rest.isEmpty || !kind.requiresObject then
        let words := ["APPEND", "APPEND_STRING", "PROPERTY"].map utf8
        some ((list.addAll words .command).exclude rest)
      else some list

/-- The candidates that a strategy finds for the argument after those in `prior`. -/
def run (strategy : Strategy) (tree : FileTree) (source : Source) (command : Command)
    (prior : List Text) : Option Candidates :=
  match strategy with
  | .includes => some (includeCandidates tree source)
  | .packages => some (packageCandidates tree source)
  | .subdirectories => some (subdirectoryCandidates tree source)
  | .languages => some (languageCandidates tree source)
  | .targets => some (targetCandidates source prior)
  | .subcommands => some (subcommandCandidates command)
  | .sources => some (sourceCandidates tree source command prior)
  | .readProperty => readProperty? tree source command prior
  | .writeProperties => writeProperties? tree source command prior
  | .readAnyProperty => readAnyProperty? tree source command prior
  | .writeAnyProperty => writeAnyProperty? tree source command prior

end Strategy

/-- The candidates for an argument of a command. Without arguments the request comes from the
opening parenthesis; with a list of them, though it may be empty, from a separator. -/
def argumentCandidates? (tree : FileTree) (source : Source) (command : Command)
    (prior : Option (List Text)) : Option Candidates := do
  let strategy ← if prior.isNone then Strategy.afterParen? command else Strategy.afterSpace? command
  strategy.run tree source command (prior.getD [])

end CMakeSense
