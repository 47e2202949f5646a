import CMakeSense.Text.Numeral

/-! Lengths of time in nanoseconds, written as a sequence of decimal numbers, each with a unit, as
in `1h30m` or `1.5s`. A length of time fits in 64 bits with its sign. -/

namespace CMakeSense.Duration

/-- Why a text is no length of time. -/
inductive Error where
  | invalid (text : Text)
  | missingUnit (text : Text)
  | unknownUnit (unit text : Text)

/-- A text in double quotes, as errors show it: controls and bytes past ASCII are written with two
hexadecimal digits. -/
def shown (t : Text) : Text :=
  let body := t.flatMap fun c =>
    if c < 0x20 || 0x80 ≤ c then utf8 "\\x" ++ Numeral.hex 2 c.toNat
    else if c = Ascii.quote || c = Ascii.backslash then [Ascii.backslash, c]
    else [c]
  Ascii.quote :: body ++ [Ascii.quote]

def Error.message : Error → Text
  | .invalid text => utf8 "time: invalid duration " ++ shown text
  | .missingUnit text => utf8 "time: missing unit in duration " ++ shown text
  | .unknownUnit unit text =>
    utf8 "time: unknown unit " ++ shown unit ++ utf8 " in duration " ++ shown text

/-- The units with their lengths. The micro sign has two spellings. -/
def units : List (Text × Nat) :=
  [(utf8 "ns", 1), (utf8 "us", 1000), (utf8 "\u00b5s", 1000), (utf8 "\u03bcs", 1000),
    (utf8 "ms", 1000000), (utf8 "s", 1000000000), (utf8 "m", 60000000000),
    (utf8 "h", 3600000000000)]

/-- One more than the greatest number that fits in 63 bits. -/
def limit : Nat := 0x8000000000000000

/-- The digits behind a point, as an integer with the power of ten that divides it. Digits past
what 63 bits hold are read over. -/
structure Fraction where
  value : Nat
  scale : Float
  full : Bool

def Fraction.push (f : Fraction) (digit : UInt8) : Fraction :=
  if f.full then f
  else if f.value > (limit - 1) / 10 then { f with full := true }
  else
    let value := f.value * 10 + (digit.toNat - 0x30)
    if value > limit then { f with full := true } else ⟨value, f.scale * 10, false⟩

def Fraction.ofDigits (digits : Text) : Fraction := digits.foldl Fraction.push ⟨0, 1, false⟩

/-- The whole nanoseconds in a fraction of a unit. -/
def Fraction.nanoseconds (f : Fraction) (unit : Nat) : Nat :=
  (f.value.toFloat * (unit.toFloat / f.scale)).toUInt64.toNat

/-- The bytes of a number; all others belong to units. -/
def isNumberByte (c : UInt8) : Bool := c = Ascii.dot || Ascii.isDigit c

/-- Reads one number with its unit: its nanoseconds and what follows. `whole` is the text that
errors name. -/
def readTerm (whole t : Text) : Except Error (Nat × Text) := do
  let digits := t.takeWhile Ascii.isDigit
  let rest := t.dropWhile Ascii.isDigit
  let value := Numeral.value digits
  if value > limit then throw (.invalid whole)
  let fractionDigits := match rest with
    | c :: more => if c = Ascii.dot then more.takeWhile Ascii.isDigit else []
    | [] => []
  let rest := match rest with
    | c :: more => if c = Ascii.dot then more.dropWhile Ascii.isDigit else rest
    | [] => []
  if digits.isEmpty && fractionDigits.isEmpty then throw (.invalid whole)
  let unit := rest.takeWhile (!isNumberByte ·)
  let rest := rest.dropWhile (!isNumberByte ·)
  if unit.isEmpty then throw (.missingUnit whole)
  let some length := units.lookup unit | throw (.unknownUnit unit whole)
  if value > limit / length then throw (.invalid whole)
  let fraction := Fraction.ofDigits fractionDigits
  let total := value * length + if fraction.value = 0 then 0 else fraction.nanoseconds length
  if total > limit then throw (.invalid whole)
  return (total, rest)

/-- Reads terms to the end of a text and adds them up in 64 bits. Every term takes at least one
byte, so `fuel` is enough when it is the number of bytes. -/
def readTerms (whole : Text) : Nat → Nat → Text → Except Error Nat
  | _, sum, [] => .ok sum
  | 0, _, _ :: _ => .error (.invalid whole)
  | fuel + 1, sum, t => do
    let (term, rest) ← readTerm whole t
    let sum := (sum + term) % (2 * limit)
    if sum > limit then throw (.invalid whole)
    readTerms whole fuel sum rest

/-- Reads a length of time with an optional sign. A bare zero needs no unit. -/
def parse (t : Text) : Except Error Int := do
  let (negative, body) := match t with
    | c :: rest =>
      if c = Ascii.hyphen then (true, rest) else (false, if c = Ascii.plus then rest else t)
    | [] => (false, t)
  if body = utf8 "0" then return 0
  if body.isEmpty then throw (.invalid t)
  let sum ← readTerms t body.length 0 body
  if negative then return -sum
  if sum ≥ limit then throw (.invalid t)
  return sum

end CMakeSense.Duration
