import CMakeSense.Settings.Duration
import CMakeSense.Text.Numeral
import CMakeSense.Text.Quoted

/-! Flags of the command line. A flag has a long name, written after two hyphens, and may have a
letter, written after one; letters can be put together in a cluster. The value of a flag follows an
equals sign or is the next argument; the value of a letter may also be the rest of its cluster.
Some flags imply a value and take one only after an equals sign. Flags and operands may come in any
order, and all that follows two hyphens alone is an operand. -/

namespace CMakeSense.CommandLine

inductive Flag where
  | help | version | verbose | logFile | format | modulesDir | subdirectories | watchInterval
  deriving DecidableEq, Repr

namespace Flag

def name : Flag → Text
  | .help => utf8 "help"
  | .version => utf8 "version"
  | .verbose => utf8 "verbose"
  | .logFile => utf8 "log-file"
  | .format => utf8 "format"
  | .modulesDir => utf8 "modules-dir"
  | .subdirectories => utf8 "subdirectories"
  | .watchInterval => utf8 "watch-interval"

def letter? : Flag → Option UInt8
  | .help => some 0x68
  | .verbose => some 0x76
  | .format => some 0x66
  | _ => none

/-- The value of a flag that stands alone. -/
def implied? : Flag → Option Text
  | .help | .version => some (utf8 "true")
  | .verbose => some (utf8 "+1")
  | _ => none

/-- A flag in both its spellings. -/
def spellings (flag : Flag) : Text :=
  (match flag.letter? with
    | some letter => [Ascii.hyphen, letter] ++ utf8 ", "
    | none => []) ++ utf8 "--" ++ flag.name

end Flag

/-- The values of the flags; a flag that is not given keeps its default. -/
structure FlagValues where
  help : Bool := false
  version : Bool := false
  logFile : Text := []
  format : Text := utf8 "line"
  modulesDir : Text := []
  subdirectories : Text := []
  watchInterval : Int := 0
  deriving DecidableEq, Repr

/-- Why arguments are refused. -/
inductive UsageError where
  | badSyntax (argument : Text)
  | unknownFlag (name : Text)
  /-- A letter that is no flag, with what is left of its cluster. -/
  | unknownLetter (letter : UInt8) (cluster : Text)
  | missingValue (flag : Flag)
  /-- A letter at the end of its cluster without a value. -/
  | missingLetterValue (letter : UInt8) (cluster : Text)
  | badValue (flag : Flag) (value reason : Text)
  | wrongCount (expected received : Nat)
  deriving DecidableEq, Repr

/-- A byte in single quotes. A byte past ASCII is shown by the first byte of the sequence for the
code point of that number. -/
def quotedLetter (byte : UInt8) : Text :=
  let shown := ((Utf8.encode byte.toNat).headD 0).toNat
  let body :=
    if shown = 0x27 then utf8 "\\'"
    else if shown = Ascii.quote.toNat then [Ascii.quote]
    else Quoted.escape (.point shown)
  0x27 :: body ++ [0x27]

def UsageError.message : UsageError → Text
  | .badSyntax argument => utf8 "bad flag syntax: " ++ argument
  | .unknownFlag name => utf8 "unknown flag: --" ++ name
  | .unknownLetter letter cluster =>
    utf8 "unknown shorthand flag: " ++ quotedLetter letter ++ utf8 " in -" ++ cluster
  | .missingValue flag => utf8 "flag needs an argument: --" ++ flag.name
  | .missingLetterValue letter cluster =>
    utf8 "flag needs an argument: " ++ quotedLetter letter ++ utf8 " in -" ++ cluster
  | .badValue flag value reason =>
    utf8 "invalid argument " ++ value.quoted ++ utf8 " for " ++ flag.spellings.quoted ++
      utf8 " flag: " ++ reason
  | .wrongCount expected received =>
    utf8 "accepts " ++ Numeral.decimal expected ++ utf8 " arg(s), received " ++
      Numeral.decimal received

def trueWords : List Text := ["1", "t", "T", "true", "TRUE", "True"].map utf8

def falseWords : List Text := ["0", "f", "F", "false", "FALSE", "False"].map utf8

def readBool? (t : Text) : Option Bool :=
  if trueWords.contains t then some true
  else if falseWords.contains t then some false
  else none

/-- Sets a flag. How often the log is made more verbose is not kept. -/
def FlagValues.put (values : FlagValues) (flag : Flag) (value : Text) :
    Except UsageError FlagValues :=
  let refuse (reading reason : Text) : Except UsageError FlagValues :=
    .error (.badValue flag value
      (reading ++ utf8 ": parsing " ++ value.quoted ++ utf8 ": " ++ reason))
  match flag with
  | .help =>
    match readBool? value with
    | some help => .ok { values with help }
    | none => refuse (utf8 "strconv.ParseBool") (utf8 "invalid syntax")
  | .version =>
    match readBool? value with
    | some version => .ok { values with version }
    | none => refuse (utf8 "strconv.ParseBool") (utf8 "invalid syntax")
  | .verbose =>
    match Numeral.readLiteral value with
    | .ok _ => .ok values
    | .error .malformed => refuse (utf8 "strconv.ParseInt") (utf8 "invalid syntax")
    | .error .outOfRange => refuse (utf8 "strconv.ParseInt") (utf8 "value out of range")
  | .logFile => .ok { values with logFile := value }
  | .format => .ok { values with format := value }
  | .modulesDir => .ok { values with modulesDir := value }
  | .subdirectories => .ok { values with subdirectories := value }
  | .watchInterval =>
    match Duration.parse value with
    | .ok watchInterval => .ok { values with watchInterval }
    | .error error => .error (.badValue flag value error.message)

/-- A flag that waits for its value, with the error that is due when no argument follows. -/
structure Pending where
  flag : Flag
  error : UsageError

/-- Arguments as far as they have been read. -/
structure Reading where
  values : FlagValues := {}
  operands : List Text := []
  pending? : Option Pending := none
  /-- Whether all further arguments are operands. -/
  isLiteral : Bool := false

namespace Reading

/-- Sets a flag and waits for nothing. -/
def put (reading : Reading) (flag : Flag) (value : Text) : Except UsageError Reading :=
  (reading.values.put flag value).map fun values => { reading with values, pending? := none }

def addOperand (reading : Reading) (operand : Text) : Reading :=
  { reading with operands := reading.operands ++ [operand] }

/-- Reads a flag by its long name; `body` is the argument without its hyphens. -/
def readLong (known : List Flag) (reading : Reading) (argument body : Text) :
    Except UsageError Reading :=
  if body.head? = some Ascii.hyphen || body.head? = some Ascii.equals then
    .error (.badSyntax argument)
  else
    let (name, value?) := match Text.cut? Ascii.equals body with
      | some (name, value) => (name, some value)
      | none => (body, none)
    match known.find? (·.name = name) with
    | none => .error (.unknownFlag name)
    | some flag =>
      match value?.or flag.implied? with
      | some value => reading.put flag value
      | none => .ok { reading with pending? := some ⟨flag, .missingValue flag⟩ }

/-- The value that a cluster gives to its first letter, when it takes the rest of the cluster. -/
def clusterValue? (flag : Flag) (rest : Text) : Option Text :=
  match rest with
  | [] => none
  | c :: value =>
    if c = Ascii.equals && !value.isEmpty then some value
    else if flag.implied?.isSome then none
    else some rest

/-- Reads a cluster of letters. Clusters that begin like the flags of a test run are passed
over. -/
def readCluster (known : List Flag) (reading : Reading) : Text → Except UsageError Reading
  | [] => .ok reading
  | letter :: rest =>
    if (utf8 "test.").isPrefixOf (letter :: rest) then .ok reading
    else match known.find? (·.letter? = some letter) with
      | none => .error (.unknownLetter letter (letter :: rest))
      | some flag =>
        match clusterValue? flag rest with
        | some value => reading.put flag value
        | none =>
          match flag.implied? with
          | some value => do
            let reading ← reading.put flag value
            readCluster known reading rest
          | none =>
            .ok { reading with pending? := some ⟨flag, .missingLetterValue letter [letter]⟩ }

/-- Reads one argument. -/
def readArgument (known : List Flag) (reading : Reading) (argument : Text) :
    Except UsageError Reading :=
  match reading.pending? with
  | some pending => reading.put pending.flag argument
  | none =>
    if reading.isLiteral then .ok (reading.addOperand argument)
    else match argument with
      | 0x2d :: 0x2d :: [] => .ok { reading with isLiteral := true }
      | 0x2d :: 0x2d :: body => readLong known reading argument body
      | 0x2d :: c :: rest => readCluster known reading (c :: rest)
      | _ => .ok (reading.addOperand argument)

end Reading

/-- Reads the arguments of a command that knows the given flags: the values of the flags and the
operands. -/
def readArguments (known : List Flag) (arguments : List Text) :
    Except UsageError (FlagValues × List Text) := do
  let reading ← arguments.foldlM (Reading.readArgument known) {}
  match reading.pending? with
  | some pending => .error pending.error
  | none => .ok (reading.values, reading.operands)

end CMakeSense.CommandLine
