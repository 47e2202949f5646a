import CMakeSense.Text.Basic

/-! Bytes written in base 64: four letters for three bytes, with equals signs in the place of
letters that are not needed at the end. Line ends are passed over. -/

namespace CMakeSense.Base64

/-- The six bits that a letter stands for. -/
def bits? (c : UInt8) : Option Nat :=
  if 0x41 ≤ c && c ≤ 0x5a then some (c.toNat - 0x41)
  else if 0x61 ≤ c && c ≤ 0x7a then some (c.toNat - 0x61 + 26)
  else if Ascii.isDigit c then some (c.toNat - 0x30 + 52)
  else if c = Ascii.plus then some 62
  else if c = Ascii.slash then some 63
  else none

/-- The bytes of groups of four letters, the last of which may be padded. -/
def decodeGroups? : Text → Option Text
  | [] => some []
  | a :: b :: c :: d :: rest => do
    let first ← bits? a
    let second ← bits? b
    let one := (first * 4 + second / 16).toUInt8
    if d = Ascii.equals && rest.isEmpty then
      if c = Ascii.equals then some [one]
      else
        let third ← bits? c
        some [one, (second % 16 * 16 + third / 4).toUInt8]
    else
      let third ← bits? c
      let fourth ← bits? d
      let more ← decodeGroups? rest
      some (one :: (second % 16 * 16 + third / 4).toUInt8 :: (third % 4 * 64 + fourth).toUInt8 ::
        more)
  | _ => none

/-- The bytes that a text stands for. -/
def decode? (t : Text) : Option Text :=
  decodeGroups? (t.filter fun c => c ≠ Ascii.newline && c ≠ Ascii.carriageReturn)

end CMakeSense.Base64
