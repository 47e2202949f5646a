import CMakeSense.Catalog.Variable
import CMakeSense.Script.Statement

/-! What a script defines: variables, environment variables, cache entries, functions and macros,
targets and tests, and the files it includes. Every list is in the order of first definition. -/

namespace CMakeSense

/-- A file that a script refers to: by its name, or as the file that finds a package. -/
structure Include where
  name : Text
  line : Int
  isPackage : Bool
  deriving DecidableEq, Repr

namespace Script

/-- Whether a token is the word that sets variables. -/
def isSet (step : Step) : Bool :=
  step.token.kind = .keyword && step.token.command = some .setVariable

/-- How much of `set ( name` the last tokens match. -/
inductive SetPhase where
  | idle | named | opened

/-- The words that directly follow the parenthesis of a `set`. A word `ENV` with a brace right
after it begins the name of an environment variable and is no such word. -/
def setNames : SetPhase → List Step → List Text
  | _, [] => []
  | phase, step :: steps =>
    if isSet step then setNames .named steps
    else match phase with
      | .idle => setNames .idle steps
      | .named => setNames (if step.token.kind = .openParen then .opened else .idle) steps
      | .opened =>
        if step.token.kind = .identifier then
          let name := step.tokenText
          if name = utf8 "ENV" && step.following.head? = some Ascii.openBrace then
            setNames .idle steps
          else name :: setNames .idle steps
        else setNames .idle steps

/-- How much of `set ( ENV name` with its brace the last tokens match. -/
inductive EnvPhase where
  | idle | named | opened | marked | braced

/-- Whether a token is the word or mark with the given bytes. -/
def isToken (step : Step) (kind : TokenKind) (bytes : Text) : Bool :=
  step.token.kind = kind && step.tokenText = bytes

/-- The names of the environment variables that some steps set. -/
def setEnvNames : EnvPhase → List Step → List Text
  | _, [] => []
  | phase, step :: steps =>
    if isSet step then setEnvNames .named steps
    else match phase with
      | .idle => setEnvNames .idle steps
      | .named => setEnvNames (if step.token.kind = .openParen then .opened else .idle) steps
      | .opened =>
        setEnvNames (if isToken step .identifier (utf8 "ENV") then .marked else .idle) steps
      | .marked =>
        setEnvNames (if isToken step .other [Ascii.openBrace] then .braced else .idle) steps
      | .braced =>
        if step.token.kind = .identifier then step.tokenText :: setEnvNames .idle steps
        else setEnvNames .idle steps

/-- The variables that a script sets, but for the standard ones. Names that differ in letter case
alone count once. -/
def normalVariables (lines : List Text) : List Text :=
  Text.distinctBy Text.toUpper
    ((setNames .idle (Walk.steps lines)).filter (!Variable.isStandard ·))

/-- The environment variables that a script sets, but for the well-known ones. -/
def envVariables (lines : List Text) : List Text :=
  Text.distinct ((setEnvNames .idle (Walk.steps lines)).filter (!Variable.isEnvironment ·))

/-- The cache entry that a statement makes: the name given to `option`, or to a `set` with the
word `CACHE` among its values. -/
def cacheEntry? (statement : Statement) : Option Text :=
  match statement.command with
  | some .option => some (statement.argument 0)
  | some .setVariable =>
    if statement.arguments.tail.contains (utf8 "CACHE") then some (statement.argument 0)
    else none
  | _ => none

/-- The cache entries that a script makes, but for the standard variables. -/
def cacheVariables (lines : List Text) : List Text :=
  Text.distinct (((statements lines).filterMap cacheEntry?).filter fun name =>
    name ≠ [] && !Variable.isStandard name)

/-- The names that a script defines by statements of one command. Names that differ in letter case
alone count once. -/
def definedBy (command : Command) (lines : List Text) : List Text :=
  Text.distinctBy Text.toLower ((statements lines).filterMap fun statement =>
    if statement.command = some command then statement.arguments.head? else none)

/-- The functions that a script defines. -/
def functions (lines : List Text) : List Text := definedBy .functionDefinition lines

/-- The macros that a script defines. -/
def macros (lines : List Text) : List Text := definedBy .macroDefinition lines

/-- The parameters in the definition of a function or macro of the given name, in any letter
case, if a statement is one. -/
def definition? (name : Text) (statement : Statement) : Option (List Text) :=
  if statement.command = some .functionDefinition || statement.command = some .macroDefinition then
    match statement.arguments with
    | [] => none
    | defined :: parameters => if defined.equalFold name then some parameters else none
  else none

/-- The parameters of the first function or macro of the given name. -/
def functionParameters? (lines : List Text) (name : Text) : Option (List Text) :=
  (statements lines).findSome? (definition? name)

/-- The target that a statement makes. -/
def target? (statement : Statement) : Option Text :=
  match statement.command with
  | some .addExecutable | some .addLibrary | some .addCustomTarget => some (statement.argument 0)
  | _ => none

/-- The targets that a script makes. -/
def targets (lines : List Text) : List Text :=
  Text.distinct (((statements lines).filterMap target?).filter (· ≠ []))

/-- The test that a statement adds: its name may follow the word `NAME`. -/
def test? (statement : Statement) : Option Text :=
  match statement.command with
  | some .addTest =>
    if statement.argument 0 = utf8 "NAME" then some (statement.argument 1)
    else some (statement.argument 0)
  | _ => none

/-- The tests that a script adds. -/
def tests (lines : List Text) : List Text :=
  Text.distinct (((statements lines).filterMap test?).filter (· ≠ []))

/-- The file that a statement refers to. -/
def include? (statement : Statement) : Option Include :=
  if statement.argument 0 = [] then none
  else match statement.command with
    | some .includeFile => some ⟨statement.argument 0, statement.line, false⟩
    | some .findPackage => some ⟨statement.argument 0, statement.line, true⟩
    | _ => none

/-- The files that a script refers to. -/
def includes (lines : List Text) : List Include := (statements lines).filterMap include?

end Script

end CMakeSense
