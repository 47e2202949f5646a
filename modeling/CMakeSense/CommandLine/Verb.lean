import CMakeSense.CommandLine.Flag
import CMakeSense.Text.Casing

/-! The verbs of the command line: the first operand says what is to be done. It is looked for
before the flags of the verb are known, so a flag other than `verbose` without an equals sign is
taken to be followed by its value. -/

namespace CMakeSense.CommandLine

inductive Verb where
  | lsp | complete | signature | tokens | symbols | commands | help | completion
  deriving DecidableEq, Repr

namespace Verb

/-- The verbs in the order in which they are suggested. -/
def all : List Verb :=
  [.lsp, .complete, .signature, .tokens, .symbols, .commands, .help, .completion]

def name : Verb → Text
  | .lsp => utf8 "lsp"
  | .complete => utf8 "complete"
  | .signature => utf8 "signature"
  | .tokens => utf8 "tokens"
  | .symbols => utf8 "symbols"
  | .commands => utf8 "commands"
  | .help => utf8 "help"
  | .completion => utf8 "completion"

def ofName? (name : Text) : Option Verb := all.find? (·.name = name)

/-- The flags that every verb knows. -/
def sharedFlags : List Flag := [.help, .verbose, .logFile]

/-- The flags of a verb, or of the command line without one. -/
def flags : Option Verb → List Flag
  | none => .version :: sharedFlags
  | some .lsp => [.modulesDir, .subdirectories, .watchInterval] ++ sharedFlags
  | some .complete | some .signature | some .symbols =>
    [.modulesDir, .subdirectories, .format] ++ sharedFlags
  | some .tokens => .format :: sharedFlags
  | some .commands | some .help | some .completion => sharedFlags

/-- The number of operands of a verb, where it is fixed. -/
def operandCount? : Verb → Option Nat
  | .complete | .signature => some 2
  | .tokens | .symbols => some 1
  | .lsp | .commands | .help | .completion => none

/-- Whether an argument is taken to be a flag with the next argument for its value. -/
def takesNext : Text → Bool
  | 0x2d :: 0x2d :: name => !name.contains Ascii.equals && name ≠ Flag.verbose.name
  | [0x2d, letter] => letter ≠ Ascii.equals && Flag.verbose.letter? ≠ some letter
  | _ => false

/-- The end of the flags. -/
def flagsEnd : Text := utf8 "--"

/-- The arguments that are taken to be operands. -/
def words : List Text → List Text
  | [] => []
  | [argument] =>
    if takesNext argument || argument.isEmpty || argument.head? = some Ascii.hyphen then []
    else [argument]
  | argument :: value :: rest =>
    if argument = flagsEnd then []
    else if takesNext argument then
      if rest.isEmpty then [] else words rest
    else if argument.isEmpty || argument.head? = some Ascii.hyphen then words (value :: rest)
    else argument :: words (value :: rest)

/-- The arguments without the first operand that is the given word. -/
def without (word : Text) : List Text → List Text
  | [] => []
  | [argument] => if argument = word then [] else [argument]
  | argument :: value :: rest =>
    if argument = flagsEnd then argument :: value :: rest
    else if takesNext argument then argument :: value :: without word rest
    else if argument = word then value :: rest
    else argument :: without word (value :: rest)

/-- One more row of the table of edit distances: those of a text that ends in `letter`, given the
row of the text before it. -/
def nextRow (letter : UInt8) (left : Nat) : Text → List Nat → List Nat
  | c :: t, diagonal :: above :: row =>
    let here := if c = letter then diagonal else min diagonal (min above left) + 1
    here :: nextRow letter here t (above :: row)
  | _, _ => []

/-- How many bytes have to be inserted, deleted or replaced to make one text of the other. -/
def editDistance (s t : Text) : Nat :=
  (s.foldl (fun row letter =>
      let first := row.headD 0 + 1
      first :: nextRow letter first t row) (List.range (t.length + 1))).getLastD 0

/-- Whether a verb may have been meant by a word, in any letter case: its name is close to the word
or goes on from it. -/
def isMeantBy (verb : Verb) (word : Text) : Bool :=
  editDistance word.toLower verb.name ≤ 2 || word.toLower.isPrefixOf verb.name

/-- The verbs that may have been meant by a word. -/
def suggestions (word : Text) : List Verb :=
  all.filter fun verb => verb ≠ .help && verb.isMeantBy word

/-- The verb that arguments name, if they name one, with the other arguments, or the word that is no
verb. -/
def select (arguments : List Text) : Except Text (Option Verb × List Text) :=
  match (words arguments).head? with
  | none => .ok (none, arguments)
  | some word =>
    match ofName? word with
    | some verb => .ok (some verb, without word arguments)
    | none => .error word

end Verb

end CMakeSense.CommandLine
