import CMakeSense.Text.Numeral

/-! Points in time: a date, or a date with a time of day. The date is a year of four digits, a month
and a day. The time follows the letter T, in either case, and then ends in a zone; or it follows
spaces, and then has no zone. Every number but the year may have one digit or two, and a fraction of
a second any number of them. -/

namespace CMakeSense.Timestamp

/-- Reads a number of one digit or two. -/
def cutNumber? : Text → Option (Nat × Text)
  | [] => none
  | a :: rest =>
    if !Ascii.isDigit a then none
    else match rest with
      | b :: more =>
        if Ascii.isDigit b then some (10 * (a.toNat - 0x30) + (b.toNat - 0x30), more)
        else some (a.toNat - 0x30, rest)
      | [] => some (a.toNat - 0x30, [])

/-- Reads a byte. -/
def cutByte? (byte : UInt8) : Text → Option Text
  | [] => none
  | c :: rest => if c = byte then some rest else none

/-- Whether a year has a day more. -/
def isLeap (year : Nat) : Bool := year % 4 = 0 && (year % 100 ≠ 0 || year % 400 = 0)

/-- The number of days of a month. -/
def daysOf (year month : Nat) : Nat :=
  if month = 2 then if isLeap year then 29 else 28
  else if month = 4 || month = 6 || month = 9 || month = 11 then 30
  else 31

/-- Reads a date, if there is such a day. -/
def cutDate? (t : Text) : Option Text := do
  let year := t.takeWhile Ascii.isDigit
  if year.length ≠ 4 then none
  let t ← cutByte? Ascii.hyphen (t.drop 4)
  let (month, t) ← cutNumber? t
  let t ← cutByte? Ascii.hyphen t
  let (day, t) ← cutNumber? t
  if 1 ≤ month && month ≤ 12 && 1 ≤ day && day ≤ daysOf (Numeral.value year) month then some t
  else none

/-- Passes a fraction of a second, if there is one. -/
def dropFraction (t : Text) : Text :=
  match t with
  | point :: digit :: rest =>
    if (point = Ascii.dot || point = 0x2c) && Ascii.isDigit digit then
      rest.dropWhile Ascii.isDigit
    else t
  | _ => t

/-- Reads a number below a limit. -/
def cutBelow? (limit : Nat) (t : Text) : Option Text :=
  match cutNumber? t with
  | some (n, rest) => if n < limit then some rest else none
  | none => none

/-- Reads a time of day. -/
def cutTime? (t : Text) : Option Text := do
  let t ← cutBelow? 24 t
  let t ← cutByte? Ascii.colon t
  let t ← cutBelow? 60 t
  let t ← cutByte? Ascii.colon t
  let t ← cutBelow? 60 t
  some (dropFraction t)

/-- Whether a text is a zone: the letter Z, or a sign with hours and minutes. Offsets of 24 hours
and of 60 minutes count as such. -/
def isZone : Text → Bool
  | [0x5a] => true
  | [sign, h, i, colon, m, n] =>
    (sign = Ascii.plus || sign = Ascii.hyphen) && colon = Ascii.colon &&
      [h, i, m, n].all Ascii.isDigit && Numeral.value [h, i] ≤ 24 && Numeral.value [m, n] ≤ 60
  | _ => false

/-- Whether a text is a time of day with a zone. -/
def isZonedTime (t : Text) : Bool := (cutTime? t).any isZone

/-- Whether a text is a time of day without a zone. -/
def isBareTime (t : Text) : Bool := (cutTime? t).any (·.isEmpty)

/-- Whether a text is a point in time. -/
def isTimestamp (t : Text) : Bool :=
  match cutDate? t with
  | some [] => true
  | some (c :: rest) =>
    if c = 0x54 || c = 0x74 then isZonedTime rest
    else c = Ascii.space && isBareTime (rest.dropWhile (· = Ascii.space))
  | none => false

end CMakeSense.Timestamp
