/-! Byte texts. Scripts, paths and names are sequences of bytes: a script need not be valid
UTF-8, and every column the library reports is a byte offset. `Text` is therefore the list of
bytes itself, ordered lexicographically by byte value, and the operations here are the few on
such lists that the standard library lacks: prefixes and suffixes that are cut off, the first
occurrence of a pattern, splitting and joining. -/

namespace CMakeSense

/-- A sequence of bytes. -/
abbrev Text := List UInt8

/-- The UTF-8 bytes of a string. -/
def utf8 (s : String) : Text := s.toUTF8.data.toList

namespace Ascii

abbrev tab : UInt8 := 0x09
abbrev newline : UInt8 := 0x0a
abbrev carriageReturn : UInt8 := 0x0d
abbrev space : UInt8 := 0x20
abbrev quote : UInt8 := 0x22
abbrev hash : UInt8 := 0x23
abbrev dollar : UInt8 := 0x24
abbrev percent : UInt8 := 0x25
abbrev openParen : UInt8 := 0x28
abbrev closeParen : UInt8 := 0x29
abbrev plus : UInt8 := 0x2b
abbrev hyphen : UInt8 := 0x2d
abbrev dot : UInt8 := 0x2e
abbrev slash : UInt8 := 0x2f
abbrev colon : UInt8 := 0x3a
abbrev equals : UInt8 := 0x3d
abbrev openBracket : UInt8 := 0x5b
abbrev backslash : UInt8 := 0x5c
abbrev closeBracket : UInt8 := 0x5d
abbrev underscore : UInt8 := 0x5f
abbrev openBrace : UInt8 := 0x7b
abbrev closeBrace : UInt8 := 0x7d

/-- The decimal digits. -/
def isDigit (c : UInt8) : Bool := 0x30 ≤ c && c ≤ 0x39

/-- The unaccented letters. -/
def isLetter (c : UInt8) : Bool := (0x41 ≤ c && c ≤ 0x5a) || (0x61 ≤ c && c ≤ 0x7a)

/-- The bytes that separate words: space, tab, newline, vertical tab, form feed and carriage
return. -/
def isSpace (c : UInt8) : Bool := c == space || (0x09 ≤ c && c ≤ 0x0d)

end Ascii

namespace Text

/-- What follows `p` in `t`, when `t` starts with `p`. -/
def dropPrefix? : Text → Text → Option Text
  | [], t => some t
  | _ :: _, [] => none
  | a :: p, b :: t => if a = b then dropPrefix? p t else none

/-- What precedes `p` in `t`, when `t` ends with `p`. -/
def dropSuffix? (p t : Text) : Option Text :=
  if p.isSuffixOf t then some (t.take (t.length - p.length)) else none

/-- `t` without `p` at its end, or `t` itself when it does not end with `p`. -/
def trimSuffix (p t : Text) : Text := (dropSuffix? p t).getD t

/-- `t` without `p` at its start, or `t` itself when it does not start with `p`. -/
def trimPrefix (p t : Text) : Text := (dropPrefix? p t).getD t

/-- The offset of the first occurrence of `p` in `t`. -/
def indexOf? (p : Text) : Text → Option Nat
  | [] => if p.isEmpty then some 0 else none
  | c :: t => if p.isPrefixOf (c :: t) then some 0 else (indexOf? p t).map (· + 1)

/-- Whether `p` occurs in `t`. -/
def occursIn (p t : Text) : Bool := (indexOf? p t).isSome

/-- The parts of a text around the first occurrence of a byte. -/
def cut? (c : UInt8) (t : Text) : Option (Text × Text) :=
  match t.dropWhile (· ≠ c) with
  | [] => none
  | _ :: rest => some (t.takeWhile (· ≠ c), rest)

/-- The parts of a text around the last occurrence of a byte. -/
def cutLast? (c : UInt8) (t : Text) : Option (Text × Text) :=
  (cut? c t.reverse).map fun (after, before) => (before.reverse, after.reverse)

/-- The pieces of a text between the occurrences of a byte: one more than there are
occurrences. -/
def splitOn (c : UInt8) : Text → List Text
  | [] => [[]]
  | b :: t =>
    if b = c then [] :: splitOn c t
    else match splitOn c t with
      | [] => [[b]]
      | piece :: pieces => (b :: piece) :: pieces

/-- The pieces with a separator between neighbours. -/
def join (separator : Text) : List Text → Text
  | [] => []
  | [piece] => piece
  | piece :: pieces => piece ++ separator ++ join separator pieces

/-- The texts in byte order. -/
def sort (ts : List Text) : List Text := ts.mergeSort fun a b => decide (a ≤ b)

/-- The first occurrences, in order, of the members that differ in `key`. -/
def distinctBy (key : Text → Text) (ts : List Text) : List Text :=
  go [] ts
where
  go (seen : List Text) : List Text → List Text
    | [] => []
    | t :: ts => if key t ∈ seen then go seen ts else t :: go (key t :: seen) ts

/-- The first occurrences of the members, in order. -/
def distinct (ts : List Text) : List Text := distinctBy id ts

@[simp] theorem splitOn_ne_nil (c : UInt8) (t : Text) : splitOn c t ≠ [] := by
  cases t with
  | nil => simp [splitOn]
  | cons b t =>
    simp only [splitOn]
    split
    · simp
    · split <;> simp

/-- A text is cut at a separator into what precedes and what follows it. -/
theorem splitOn_append {c : UInt8} (a t : Text) :
    splitOn c (a ++ c :: t) = splitOn c a ++ splitOn c t := by
  induction a with
  | nil => simp [splitOn]
  | cons b a ih =>
    obtain ⟨piece, pieces, h⟩ := List.exists_cons_of_ne_nil (splitOn_ne_nil c a)
    rw [h] at ih
    by_cases hb : b = c <;> simp [splitOn, hb, ih, h]

/-- The parts around the first occurrence, with the byte between them, are the text. -/
theorem eq_append_of_cut? {c : UInt8} {t a b : Text} (h : cut? c t = some (a, b)) :
    t = a ++ c :: b := by
  have parts : t.takeWhile (· ≠ c) ++ t.dropWhile (· ≠ c) = t := List.takeWhile_append_dropWhile
  rw [cut?] at h
  cases behind : t.dropWhile (· ≠ c) with
  | nil =>
    rw [behind] at h
    cases h
  | cons d rest =>
    have first := List.head?_dropWhile_not (· ≠ c) t
    rw [behind] at h first parts
    obtain rfl : d = c := by simpa using first
    cases h
    exact parts.symm

theorem eq_append_of_cutLast? {c : UInt8} {t a b : Text} (h : cutLast? c t = some (a, b)) :
    t = a ++ c :: b := by
  obtain ⟨⟨after, before⟩, cut, parts⟩ := Option.map_eq_some_iff.mp h
  cases parts
  rw [← t.reverse_reverse, eq_append_of_cut? cut]
  simp

end Text

end CMakeSense
