import CMakeSense.Editor.Address
import CMakeSense.Text.Path

/-! Document URIs. A `file` URI names the path in it, with its percent escapes replaced; any other
URI is taken as a path itself. A malformed `file` URI names nothing. -/

namespace CMakeSense.Uri

/-- A percent escape or a byte as it stands. -/
inductive Piece where
  | byte (value : UInt8)
  | escape (value : UInt8)

def Piece.value : Piece → UInt8
  | .byte value | .escape value => value

/-- The pieces of a text. Fails at a percent sign without two hexadecimal digits. -/
def pieces? : Text → Option (List Piece)
  | [] => some []
  | c :: t =>
    if c = Ascii.percent then
      match t with
      | a :: b :: t => do
        let high ← Numeral.hexDigit? a
        let low ← Numeral.hexDigit? b
        (pieces? t).map (.escape (high * 16 + low).toUInt8 :: ·)
      | _ => none
    else (pieces? t).map (.byte c :: ·)

/-- The text with its percent escapes replaced. -/
def unescape? (t : Text) : Option Text := (pieces? t).map fun pieces => pieces.map (·.value)

/-- The ASCII bytes that may stand in a host. -/
def isHostByte (c : UInt8) : Bool :=
  Ascii.isLetter c || Ascii.isDigit c || (utf8 "-_.~!$&'()*+,;=:[]<>\"").contains c

/-- Whether a text can be (a part of) a host: escapes are for bytes past ASCII and for the percent
sign, and in a zone also for what may stand in a host anyway. -/
def isHost (zone : Bool) (t : Text) : Bool :=
  match pieces? t with
  | none => false
  | some pieces => pieces.all fun
    | .byte c => 0x80 ≤ c || isHostByte c
    | .escape c =>
      c = Ascii.percent || (!zone && 0x80 ≤ c) || (zone && (c = Ascii.space || isHostByte c))

/-- Whether a text is a colon with digits, or empty. -/
def isOptionalNumber : Text → Bool
  | [] => true
  | c :: t => c = Ascii.colon && t.all Ascii.isDigit

/-- Whether a text is an address with its escapes, as it stands between brackets. The zone begins
with the escape of a percent sign. -/
def isBracketed (t : Text) : Bool :=
  let isGood := match Text.indexOf? (utf8 "%25") t with
    | some i => isHost false (t.take i) && isHost true (t.drop i)
    | none => isHost false t
  isGood && (unescape? t).any Address.isAddress

/-- Whether a text is a host, with or without a number after a colon. Brackets are for addresses,
and nothing stands before them. -/
def isNumberedHost (t : Text) : Bool :=
  match Text.cutLast? Ascii.openBracket t with
  | some (before, rest) =>
    before.isEmpty &&
      match Text.cutLast? Ascii.closeBracket rest with
      | some (literal, number) => isOptionalNumber number && isBracketed literal
      | none => false
  | none =>
    match Text.cutLast? Ascii.colon t with
    | some (_, number) => number.all Ascii.isDigit && isHost false t
    | none => isHost false t

/-- Whether a text can name a user. -/
def isUser (t : Text) : Bool :=
  (unescape? t).isSome && t.all fun c =>
    Ascii.isLetter c || Ascii.isDigit c || (utf8 "-._:~!$&'()*+,;=%@").contains c

/-- Whether a text can be the authority of a URI. -/
def isAuthority (t : Text) : Bool :=
  match Text.cutLast? 0x40 t with
  | some (user, host) => isNumberedHost host && isUser user
  | none => isNumberedHost t

/-- The path of a `file` URI, given what follows its slashes. -/
def filePath? (rest : Text) : Option Text := do
  let body := rest.takeWhile (· ≠ Ascii.hash)
  let fragment := (rest.dropWhile (· ≠ Ascii.hash)).tail
  if body.any fun c => c < 0x20 || c = 0x7f then none
  else
    let location := body.takeWhile (· ≠ 0x3f)
    if isAuthority (location.takeWhile (· ≠ Ascii.slash)) then
      let path ← unescape? (location.dropWhile (· ≠ Ascii.slash))
      let _ ← unescape? fragment
      some (Path.clean path)
    else none

/-- The path that a URI names. -/
def path? (uri : Text) : Option Text :=
  match Text.dropPrefix? (utf8 "file://") uri with
  | some rest => filePath? rest
  | none => some uri

end CMakeSense.Uri
