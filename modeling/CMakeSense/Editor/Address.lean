import CMakeSense.Text.Numeral

/-! Internet addresses in the notation of eight groups: groups of hexadecimal digits with colons
between them, where two colons in a row stand for one or more groups of zeros. The last two groups
may be written as four decimal numbers with points between them. -/

namespace CMakeSense.Address

/-- Whether a text is a group of one to four hexadecimal digits. -/
def isGroup (t : Text) : Bool :=
  !t.isEmpty && t.length ≤ 4 && t.all fun c => (Numeral.hexDigit? c).isSome

/-- Whether a text is a decimal number of one byte without needless zeros. -/
def isOctet (t : Text) : Bool :=
  !t.isEmpty && t.length ≤ 3 && t.all Ascii.isDigit && Numeral.value t ≤ 255 &&
    (t.length = 1 || t.head? ≠ some 0x30)

/-- Whether a text is four numbers of one byte with points between them. -/
def isDotted (t : Text) : Bool :=
  let octets := Text.splitOn Ascii.dot t
  octets.length = 4 && octets.all isOctet

/-- How many groups a text without double colons writes. The last place is open to the decimal
notation where `atEnd` says so. -/
def groupCount? (atEnd : Bool) (t : Text) : Option Nat :=
  if t.isEmpty then some 0
  else
    let groups := Text.splitOn Ascii.colon t
    let last := groups.getLastD []
    if !groups.dropLast.all isGroup then none
    else if isGroup last then some groups.length
    else if atEnd && isDotted last then some (groups.length + 1)
    else none

/-- Whether a text is an address without a zone. -/
def isPlain (t : Text) : Bool :=
  match Text.indexOf? (utf8 "::") t with
  | none => groupCount? true t = some 8
  | some i =>
    match groupCount? false (t.take i), groupCount? true (t.drop (i + 2)) with
    | some a, some b => a + b < 8
    | _, _ => false

/-- Whether a text is an address, with or without a zone after a percent sign. -/
def isAddress (t : Text) : Bool :=
  match Text.cut? Ascii.percent t with
  | some (address, zone) => isPlain address && !zone.isEmpty
  | none => isPlain t

end CMakeSense.Address
