import CMakeSense.Text.Basic

/-! Reading byte texts as UTF-8. A text is read as a list of items: code points, and stray bytes
at which no well-formed sequence starts. Reading never fails and never skips: a malformed
sequence gives up its first byte as a stray and reading goes on with the next byte. -/

namespace CMakeSense.Utf8

/-- A code point, or a byte that begins no well-formed sequence. -/
inductive Item where
  | point (code : Nat)
  | stray (byte : UInt8)
  deriving DecidableEq, Repr

/-- The code point that stands for a stray byte where only code points are possible. -/
def replacement : Nat := 0xfffd

/-- The item's code point; a stray byte counts as the replacement character. -/
def Item.code : Item → Nat
  | .point code => code
  | .stray _ => replacement

/-- Appends the six payload bits of each of the next `k` continuation bytes to `acc`. -/
def continuation? (acc : Nat) : Nat → Text → Option Nat
  | 0, _ => some acc
  | _ + 1, [] => none
  | k + 1, b :: t =>
    if 0x80 ≤ b && b < 0xc0 then continuation? (acc * 64 + (b.toNat - 0x80)) k t else none

/-- What a lead byte announces: how many continuation bytes follow, its own payload bits, and the
least code point that needs a sequence of this length. -/
def lead? (a : UInt8) : Option (Nat × Nat × Nat) :=
  if a < 0xc0 then none
  else if a < 0xe0 then some (1, a.toNat - 0xc0, 0x80)
  else if a < 0xf0 then some (2, a.toNat - 0xe0, 0x800)
  else if a < 0xf8 then some (3, a.toNat - 0xf0, 0x10000)
  else none

/-- The code point of the multi-byte sequence that starts with `a` and goes on in `t`, with the
number of bytes it takes from `t`. Overlong forms, surrogates and values past the last code point
are refused. -/
def sequence? (a : UInt8) (t : Text) : Option (Nat × Nat) := do
  let (count, bits, least) ← lead? a
  let code ← continuation? bits count t
  if least ≤ code && code ≤ 0x10ffff && !(0xd800 ≤ code && code ≤ 0xdfff) then
    some (code, count)
  else none

/-- The item at the head of `a :: t`, with the number of bytes it takes from `t`. -/
def first (a : UInt8) (t : Text) : Item × Nat :=
  if a < 0x80 then (.point a.toNat, 0)
  else match sequence? a t with
    | some (code, count) => (.point code, count)
    | none => (.stray a, 0)

/-- Reads the items of a text after skipping the given number of bytes. -/
def itemsAfter : Nat → Text → List Item
  | _, [] => []
  | k + 1, _ :: t => itemsAfter k t
  | 0, a :: t => (first a t).1 :: itemsAfter (first a t).2 t

/-- The items of a text. -/
def items (t : Text) : List Item := itemsAfter 0 t

/-- The bytes of a code point. -/
def encode (code : Nat) : Text :=
  if code < 0x80 then [code.toUInt8]
  else if code < 0x800 then [(0xc0 + code / 64).toUInt8, (0x80 + code % 64).toUInt8]
  else if code < 0x10000 then
    [(0xe0 + code / 4096).toUInt8, (0x80 + code / 64 % 64).toUInt8, (0x80 + code % 64).toUInt8]
  else
    [(0xf0 + code / 262144).toUInt8, (0x80 + code / 4096 % 64).toUInt8,
      (0x80 + code / 64 % 64).toUInt8, (0x80 + code % 64).toUInt8]

/-- Whether a text has no stray bytes. -/
def isValid (t : Text) : Bool :=
  (items t).all fun
    | .point _ => true
    | .stray _ => false

/-- The text with a replacement character for each stray byte. -/
def repair (t : Text) : Text := (items t).flatMap fun item => encode item.code

/-- A text of single-byte code points is read byte by byte. -/
theorem items_of_ascii {t : Text} (h : ∀ c ∈ t, c < 0x80) :
    items t = t.map fun c => Item.point c.toNat := by
  induction t with
  | nil => rfl
  | cons a t ih =>
    have ha : a < 0x80 := h a (by simp)
    have ht := ih fun c hc => h c (by simp [hc])
    simp only [items] at ht
    simp [items, itemsAfter, first, ha, ht]

end CMakeSense.Utf8
