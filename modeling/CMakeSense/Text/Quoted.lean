import CMakeSense.Text.Numeral
import CMakeSense.Text.PrintableIntervals
import CMakeSense.Text.Utf8

/-! Quoted texts: a text between double quotes in which quotes, backslashes and all that does not
print are escaped. Printable code points stand for themselves, controls with a letter of their own
use it, other ASCII controls and stray bytes are written with two hexadecimal digits, and other
code points with four or eight. -/

namespace CMakeSense

/-- Whether a code point prints as itself. -/
def Printable.isPrintable (code : Nat) : Bool :=
  if code < 0x80 then 0x20 ≤ code && code < 0x7f
  else Printable.intervals.any fun (lo, hi) => lo ≤ code && code ≤ hi

namespace Quoted

/-- The letters of the controls that have one. -/
def controlLetters : List (Nat × Char) :=
  [(7, 'a'), (8, 'b'), (9, 't'), (10, 'n'), (11, 'v'), (12, 'f'), (13, 'r')]

/-- The writing of one item inside the quotes. -/
def escape : Utf8.Item → Text
  | .stray byte => utf8 "\\x" ++ Numeral.hex 2 byte.toNat
  | .point code =>
    if code = Ascii.quote.toNat || code = Ascii.backslash.toNat then
      [Ascii.backslash, code.toUInt8]
    else if Printable.isPrintable code then Utf8.encode code
    else match controlLetters.lookup code with
      | some letter => [Ascii.backslash, letter.toNat.toUInt8]
      | none =>
        if code < 0x80 then utf8 "\\x" ++ Numeral.hex 2 code
        else if code < 0x10000 then utf8 "\\u" ++ Numeral.hex 4 code
        else utf8 "\\U" ++ Numeral.hex 8 code

end Quoted

/-- The text in double quotes. -/
def Text.quoted (t : Text) : Text :=
  Ascii.quote :: (Utf8.items t).flatMap Quoted.escape ++ [Ascii.quote]

end CMakeSense
