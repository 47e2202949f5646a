import CMakeSense.Text.Basic

/-! The characters of a YAML file. A file is UTF-8, or UTF-16 when it begins with the mark of one of
its byte orders; a mark is no character. The bytes are taken in blocks, and a block with a bad
sequence or a control character gives no characters at all: reading fails when it gets there, and
not before. -/

namespace CMakeSense.Yaml

/-- Why bytes are no characters. -/
inductive Fault where
  | badLead | badTrail | badLength | badCharacter | incompleteSequence
  | incompleteUnit | incompletePair | strayLow | missingLow
  | control
  deriving DecidableEq, Repr

def Fault.message : Fault → Text
  | .badLead => utf8 "invalid leading UTF-8 octet"
  | .badTrail => utf8 "invalid trailing UTF-8 octet"
  | .badLength => utf8 "invalid length of a UTF-8 sequence"
  | .badCharacter => utf8 "invalid Unicode character"
  | .incompleteSequence => utf8 "incomplete UTF-8 octet sequence"
  | .incompleteUnit => utf8 "incomplete UTF-16 character"
  | .incompletePair => utf8 "incomplete UTF-16 surrogate pair"
  | .strayLow => utf8 "unexpected low surrogate area"
  | .missingLow => utf8 "expected low surrogate area"
  | .control => utf8 "control characters are not allowed"

/-- Characters up to a fault, if there is one. -/
structure Input where
  characters : List Char
  fault? : Option Fault
  /-- Lines that begin before this index lose their first character. There are such lines only when
  the mark of the byte order stands a second time at the beginning, and only in the first block. -/
  margin : Nat
  deriving DecidableEq, Repr

inductive Encoding where
  | utf8 | littleEndian | bigEndian
  deriving DecidableEq, Repr

/-- What the first bytes of a text give. -/
inductive Decoded where
  | code (value width : Nat)
  /-- More bytes are needed; the fault is due when there are none. -/
  | incomplete (fault : Fault)
  | bad (fault : Fault)

namespace Encoding

/-- The encoding of a file, and how many bytes the mark at its beginning takes. -/
def detect : Text → Encoding × Nat
  | 0xff :: 0xfe :: _ => (.littleEndian, 2)
  | 0xfe :: 0xff :: _ => (.bigEndian, 2)
  | 0xef :: 0xbb :: 0xbf :: _ => (.utf8, 3)
  | _ => (.utf8, 0)

/-- The number of bytes of a UTF-8 sequence, its first payload bits and the least code point that
needs it. -/
def lead? (a : UInt8) : Option (Nat × Nat × Nat) :=
  if a < 0x80 then some (1, a.toNat, 0)
  else if 0xc0 ≤ a && a < 0xe0 then some (2, a.toNat - 0xc0, 0x80)
  else if 0xe0 ≤ a && a < 0xf0 then some (3, a.toNat - 0xe0, 0x800)
  else if 0xf0 ≤ a && a < 0xf8 then some (4, a.toNat - 0xf0, 0x10000)
  else none

def isTrail (b : UInt8) : Bool := 0x80 ≤ b && b < 0xc0

def decodeUtf8 : Text → Decoded
  | [] => .incomplete .incompleteSequence
  | a :: t =>
    match lead? a with
    | none => .bad .badLead
    | some (width, bits, least) =>
      let trail := t.take (width - 1)
      if trail.length < width - 1 then .incomplete .incompleteSequence
      else if !trail.all isTrail then .bad .badTrail
      else
        let value := trail.foldl (fun n b => n * 64 + (b.toNat - 0x80)) bits
        if value < least then .bad .badLength
        else if 0x10ffff < value || (0xd800 ≤ value && value ≤ 0xdfff) then .bad .badCharacter
        else .code value width

/-- The value of two bytes in a byte order. -/
def unit (little : Bool) (a b : UInt8) : Nat :=
  if little then a.toNat + 256 * b.toNat else 256 * a.toNat + b.toNat

def isHigh (n : Nat) : Bool := 0xd800 ≤ n && n < 0xdc00

def isLow (n : Nat) : Bool := 0xdc00 ≤ n && n < 0xe000

def decodeUtf16 (little : Bool) : Text → Decoded
  | a :: b :: t =>
    let first := unit little a b
    if isLow first then .bad .strayLow
    else if isHigh first then
      match t with
      | c :: d :: _ =>
        let second := unit little c d
        if isLow second then .code (0x10000 + (first - 0xd800) * 0x400 + (second - 0xdc00)) 4
        else .bad .missingLow
      | _ => .incomplete .incompletePair
    else .code first 2
  | _ => .incomplete .incompleteUnit

def decode : Encoding → Text → Decoded
  | .utf8 => decodeUtf8
  | .littleEndian => decodeUtf16 true
  | .bigEndian => decodeUtf16 false

end Encoding

/-- Whether a code point may stand in a file. -/
def isAllowed (code : Nat) : Bool :=
  code = 0x09 || code = 0x0a || code = 0x0d || (0x20 ≤ code && code ≤ 0x7e) || code = 0x85 ||
    (0xa0 ≤ code && code ≤ 0xd7ff) || (0xe000 ≤ code && code ≤ 0xfffd) || 0x10000 ≤ code

/-- What a block of bytes gives: its characters, the last one first, and the bytes of a sequence
that goes on in the next block, with the fault that is due when there is no next block. -/
structure Block where
  characters : List Char
  left : Text
  due? : Option Fault

/-- Decodes the bytes of a block. Every character takes at least one byte, so `fuel` is enough when
it is the number of bytes. -/
def decodeBlock (encoding : Encoding) : Nat → List Char → Text → Except Fault Block
  | _, acc, [] => .ok ⟨acc, [], none⟩
  | 0, acc, t => .ok ⟨acc, t, none⟩
  | fuel + 1, acc, t =>
    match encoding.decode t with
    | .bad fault => .error fault
    | .incomplete fault => .ok ⟨acc, t, some fault⟩
    | .code value width =>
      if isAllowed value then decodeBlock encoding fuel (Char.ofNat value :: acc) (t.drop width)
      else .error .control

/-- The number of bytes of a block. -/
def blockSize : Nat := 512

/-- The mark of the byte order. -/
def byteOrderMark : Char := '\ufeff'

/-- How many characters at the end of the first block are no beginning of a line that loses one. -/
def marginReach : Nat := 3

/-- The margin that the characters of the first block make. -/
def marginOf (characters : List Char) : Nat :=
  if characters.head? = some byteOrderMark then max 1 (characters.length - marginReach) else 0

/-- Reads block after block. `acc` holds the characters so far, the last one first, and `left` the
bytes that the block before left over; `size` is the size of the next block. -/
def readBlocks (encoding : Encoding) :
    Nat → List Char → Text → Nat → Text → List Char × Option Fault
  | 0, acc, _, _, _ => (acc.reverse, none)
  | fuel + 1, acc, left, size, t =>
    let taken := size - left.length
    match decodeBlock encoding size [] (left ++ t.take taken) with
    | .error fault => (acc.reverse, some fault)
    | .ok block =>
      let acc := block.characters ++ acc
      let rest := t.drop taken
      if rest.isEmpty then (acc.reverse, block.due?)
      else readBlocks encoding fuel acc block.left blockSize rest

/-- The characters of a file. -/
def Input.ofBytes (bytes : Text) : Input :=
  let (encoding, skipped) := Encoding.detect bytes
  let size := blockSize - skipped
  let t := bytes.drop skipped
  let (characters, fault?) := readBlocks encoding (t.length + 1) [] [] size t
  let margin :=
    match decodeBlock encoding size [] (t.take size) with
    | .ok block => marginOf block.characters.reverse
    | .error _ => 0
  ⟨characters, fault?, margin⟩

end CMakeSense.Yaml
