import CMakeSense.Text.Numeral

/-! Decimal numbers with a point and an exponent, as far as it matters whether they fit into a
floating-point number of 64 bits: a number that would be rounded past the greatest one does not. -/

namespace CMakeSense

/-- The number `digits · 10 ^ exponent`. -/
structure Decimal where
  digits : Nat
  exponent : Int
  deriving DecidableEq, Repr

namespace Decimal

/-- The least number that is rounded past the greatest one: `2 ^ 1024 - 2 ^ 970`. -/
def limit : Nat := Nat.pow 2 1024 - Nat.pow 2 970

/-- The number of digits of the limit. -/
def limitWidth : Int := 309

/-- Whether a number fits into 64 bits. Numbers with many more or fewer digits than the limit are
not computed. -/
def fits (d : Decimal) : Bool :=
  let width := (Numeral.decimal d.digits).length + d.exponent
  d.digits = 0 || width < limitWidth ||
    (width = limitWidth &&
      d.digits * Nat.pow 10 d.exponent.toNat < limit * Nat.pow 10 (-d.exponent).toNat)

/-- Reads an exponent: a letter E, an optional sign and digits that underscores may follow. No
exponent counts as zero. -/
def exponent? : Text → Option Int
  | [] => some 0
  | mark :: rest =>
    let (negative, digits) := Numeral.cutSign rest
    let value := Numeral.value (digits.filter (· ≠ Ascii.underscore))
    let isExponent := (mark = 0x65 || mark = 0x45) && digits.head?.any Ascii.isDigit &&
      digits.all fun c => Ascii.isDigit c || c = Ascii.underscore
    if isExponent then some (if negative then -value else value) else none

/-- The digits before and after a point, and what follows them. -/
def cutMantissa (t : Text) : Text × Text × Text :=
  let isPart := fun c => Ascii.isDigit c || c = Ascii.underscore
  let whole := t.takeWhile isPart
  match t.drop whole.length with
  | [] => (whole, [], [])
  | c :: rest =>
    if c = Ascii.dot then
      let fraction := rest.takeWhile isPart
      (whole, fraction, rest.drop fraction.length)
    else (whole, [], c :: rest)

/-- Reads a number without a sign. Underscores may stand between digits. -/
def read? (t : Text) : Option Decimal := do
  let (whole, fraction, rest) := cutMantissa t
  let digits := (whole ++ fraction).filter Ascii.isDigit
  if digits.isEmpty || !Numeral.separates false .none t then none
  let exponent ← exponent? rest
  some ⟨Numeral.value digits, exponent - (fraction.filter Ascii.isDigit).length⟩

/-- Whether a text is a number without a sign that fits into 64 bits. -/
def isNumber (t : Text) : Bool := (read? t).any fits

end Decimal

end CMakeSense
