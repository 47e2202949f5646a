import CMakeSense.Text.Basic

/-! Numerals: decimal and hexadecimal writing, and reading within 64 bits, either of decimal digits
or of a literal that says its base. -/

namespace CMakeSense.Numeral

/-- The digits of a number in a base of at most sixteen. -/
def digits (base n : Nat) : Text := (Nat.toDigits base n).map fun c => c.toNat.toUInt8

def decimal (n : Nat) : Text := digits 10 n

/-- A minus sign precedes the digits of a negative number. -/
def decimalInt : Int → Text
  | .ofNat n => decimal n
  | .negSucc n => Ascii.hyphen :: decimal (n + 1)

/-- The hexadecimal digits of a number, with zeros in front up to the given width. -/
def hex (width n : Nat) : Text :=
  let ds := digits 16 n
  List.replicate (width - ds.length) 0x30 ++ ds

/-- The value of a run of decimal digits. -/
def value (ds : Text) : Nat := ds.foldl (fun n d => n * 10 + (d.toNat - 0x30)) 0

/-- Why a text is no number. -/
inductive Fault where
  | malformed | outOfRange
  deriving DecidableEq, Repr

/-- The value of a digit; letters of either case go on after nine. -/
def digitValue? (c : UInt8) : Option Nat :=
  if Ascii.isDigit c then some (c.toNat - 0x30)
  else if 0x61 ≤ c && c ≤ 0x7a then some (c.toNat - 0x57)
  else if 0x41 ≤ c && c ≤ 0x5a then some (c.toNat - 0x37)
  else none

/-- The value of one hexadecimal digit. -/
def hexDigit? (c : UInt8) : Option Nat := (digitValue? c).filter (· < 16)

/-- Appends digits of a base to a number below the 64-bit limit, the underscores among them passed
over. -/
def readDigits (base n : Nat) : Text → Except Fault Nat
  | [] => .ok n
  | c :: rest =>
    if c = Ascii.underscore then readDigits base n rest
    else match digitValue? c with
      | none => .error .malformed
      | some digit =>
        if base ≤ digit then .error .malformed
        else if 0x10000000000000000 ≤ n * base + digit then .error .outOfRange
        else readDigits base (n * base + digit) rest

/-- The sign of a number, and what follows it. -/
def cutSign : Text → Bool × Text
  | [] => (false, [])
  | c :: rest =>
    if c = Ascii.hyphen then (true, rest)
    else if c = Ascii.plus then (false, rest)
    else (false, c :: rest)

/-- The base that the start of a literal says, and the digits that follow. A zero alone in front
says eight. -/
def cutBase : Text → Nat × Text
  | 0x30 :: c :: d :: rest =>
    if c = 0x62 || c = 0x42 then (2, d :: rest)
    else if c = 0x6f || c = 0x4f then (8, d :: rest)
    else if c = 0x78 || c = 0x58 then (16, d :: rest)
    else (8, c :: d :: rest)
  | 0x30 :: rest => (8, rest)
  | digits => (10, digits)

/-- What stands before a byte of a literal. -/
inductive Neighbour where
  | none | digit | underscore
  deriving DecidableEq

/-- Whether every underscore stands between digits. -/
def separates (isHex : Bool) : Neighbour → Text → Bool
  | last, [] => last ≠ .underscore
  | last, c :: rest =>
    if Ascii.isDigit c || (isHex && (hexDigit? c).isSome) then separates isHex .digit rest
    else if c = Ascii.underscore then last = .digit && separates isHex .underscore rest
    else last ≠ .underscore && separates isHex .none rest

/-- Whether the underscores of a literal without a sign stand between digits, where letters that say
a base count as one. -/
def hasGoodUnderscores (t : Text) : Bool :=
  match t with
  | 0x30 :: c :: rest =>
    if c = 0x78 || c = 0x58 then separates true .digit rest
    else if c = 0x62 || c = 0x42 || c = 0x6f || c = 0x4f then separates false .digit rest
    else separates false .none t
  | _ => separates false .none t

/-- Reads a literal without a sign: digits of the base that it says, with underscores between
them. -/
def readUnsigned (t : Text) : Except Fault Nat := do
  if t.isEmpty then throw .malformed
  let (base, digits) := cutBase t
  let n ← readDigits base 0 digits
  if t.contains Ascii.underscore && !hasGoodUnderscores t then throw .malformed
  return n

/-- Gives a number its sign. It has to fit in 64 bits with it. -/
def signed (negative : Bool) (n : Nat) : Except Fault Int :=
  if negative then if n ≤ 0x8000000000000000 then .ok (-n) else .error .outOfRange
  else if n < 0x8000000000000000 then .ok n else .error .outOfRange

/-- Reads a literal with an optional sign. -/
def readLiteral (t : Text) : Except Fault Int := do
  let (negative, digits) := cutSign t
  signed negative (← readUnsigned digits)

/-- Reads digits of a given base with an optional sign. -/
def readInBase (base : Nat) (t : Text) : Except Fault Int := do
  let (negative, digits) := cutSign t
  if digits.isEmpty || digits.contains Ascii.underscore then throw .malformed
  signed negative (← readDigits base 0 digits)

/-- Reads a decimal number with an optional sign that fits in 64 bits. -/
def readInt? (t : Text) : Option Int := (readInBase 10 t).toOption

end CMakeSense.Numeral
