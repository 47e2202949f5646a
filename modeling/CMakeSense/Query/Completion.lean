import CMakeSense.Query.Context
import CMakeSense.Query.Strategy

/-! Completion: the candidates that belong at a token. A request names the token that raised it;
after an opener of a variable reference the candidates are the variables in sight, and elsewhere
they depend on the command around the token. -/

namespace CMakeSense

/-- Why a request is made. -/
inductive Reason where
  | memberSelect | parameterInfo
  deriving DecidableEq, Repr

namespace Reason

def label : Reason → Text
  | .memberSelect => utf8 "MemberSelect"
  | .parameterInfo => utf8 "ParameterInfo"

/-- The reason with a number. -/
def ofCode? (code : Int) : Option Reason :=
  if code = 0 then some .memberSelect else if code = 1 then some .parameterInfo else none

end Reason

/-- A request: the place at which the token that raised it starts, and the kind of that token. A
kind that no token has matches none. -/
structure Request where
  position : Position
  token? : Option TokenKind
  deriving DecidableEq, Repr

namespace Completion

/-- The variables in sight: the standard ones, those of the languages, those of the buffer and
those of other files. -/
def normalVariables? (tree : FileTree) (source : Source) : Option Candidates := do
  let languages := tree.moduleLanguages source.options.modulesDir
  let own := Variable.standard.toList ++ Variable.ofLanguages languages ++
    Script.normalVariables source.lines
  let others ← source.symbols.names? (·.normalVariables)
  some (Candidates.empty.addAll (own ++ others) .variableName)

/-- The environment variables in sight. -/
def envVariables? (source : Source) : Option Candidates := do
  let own := Variable.environment.toList ++ Script.envVariables source.lines
  let others ← source.symbols.names? (·.envVariables)
  some (Candidates.empty.addAll (own ++ others) .variableName)

/-- The cache entries in sight. -/
def cacheVariables? (source : Source) : Option Candidates := Strategy.cacheCandidates? source []

/-- The built-in commands and the functions and macros in sight. -/
def commands? (source : Source) : Option Candidates := do
  let functions ← source.symbols.names? (·.functions)
  let macros ← source.symbols.names? (·.macros)
  let own := Script.functions source.lines ++ Script.macros source.lines
  some ((Candidates.empty.addAll Command.names .command).addAll (own ++ functions ++ macros)
    .function)

/-- The candidates at a token inside or outside of an argument list. -/
def inContext? (tree : FileTree) (source : Source) (context : Context) (token : Token) :
    Option Candidates :=
  match token.kind with
  | .openParen =>
    if token.trigger.has .parameterStart then
      context.command.bind fun command => argumentCandidates? tree source command none
    else none
  | .whiteSpace =>
    if token.trigger.has .parameterNext then
      context.command.bind fun command =>
        argumentCandidates? tree source command context.arguments?
    else none
  | .keyword | .identifier => if context.isInside then none else commands? source
  | _ => none

/-- The candidates for a request, where there is a list for it. -/
def candidates? (tree : FileTree) (source : Source) (request : Request) : Option Candidates :=
  match request.token? with
  | none => none
  | some .variableStart => normalVariables? tree source
  | some .variableStartEnv => envVariables? source
  | some .variableStartCache => cacheVariables? source
  | some kind => do
    let context := Context.around source.lines request.position
    let token ← context.token?
    if token.kind = kind then inContext? tree source context token else none

end Completion

end CMakeSense
