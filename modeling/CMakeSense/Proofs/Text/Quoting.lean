import CMakeSense.Proofs.Text.Numeral
import CMakeSense.Proofs.Text.Utf8
import CMakeSense.Text.Quoted

/-! Quoted texts read back. Outside of escapes every byte stands for itself, and an escape says
either a byte or a code point, so that a text can be read from its quoted form without regard to
what is printable (`Text.unquoted_quoted`). The quoted form has no control characters
(`Text.visible_of_mem_quoted`). -/

namespace CMakeSense

namespace Quoted

/-- The byte that a byte behind a backslash stands for: the control that has it as its letter, or
the byte itself. -/
def named (c : UInt8) : UInt8 :=
  match controlLetters.find? fun (_, letter) => letter.toNat.toUInt8 = c with
  | some (code, _) => code.toUInt8
  | none => c

def hexValue (digits : Text) : Nat := (Numeral.readDigits 16 0 digits).toOption.getD 0

/-- The bytes that the text behind a backslash stands for, with the number of bytes that say so. -/
def readEscape : Text → Text × Nat
  | [] => ([], 0)
  | c :: t =>
    if c = 0x78 then ([(hexValue (t.take 2)).toUInt8], 3)
    else if c = 0x75 then (Utf8.encode (hexValue (t.take 4)), 5)
    else if c = 0x55 then (Utf8.encode (hexValue (t.take 8)), 9)
    else ([named c], 1)

/-- Reads what stands between quotes after skipping the given number of bytes. -/
def unescapeAfter : Nat → Text → Text
  | _, [] => []
  | k + 1, _ :: t => unescapeAfter k t
  | 0, c :: t =>
    if c = Ascii.backslash then (readEscape t).1 ++ unescapeAfter (readEscape t).2 t
    else c :: unescapeAfter 0 t

def unescape (t : Text) : Text := unescapeAfter 0 t


theorem unescapeAfter_eq_drop (k : Nat) (t : Text) : unescapeAfter k t = unescape (t.drop k) := by
  induction t generalizing k with
  | nil => simp [unescape, unescapeAfter]
  | cons c t ih =>
    cases k with
    | zero => rfl
    | succ k => exact ih k

theorem unescape_backslash (t : Text) :
    unescape (Ascii.backslash :: t) = (readEscape t).1 ++ unescape (t.drop (readEscape t).2) := by
  rw [← unescapeAfter_eq_drop, unescape, unescapeAfter, if_pos rfl]

/-- A writing of bytes: it has no control characters and reads as the bytes, whatever follows. -/
structure Writes (written bytes : Text) : Prop where
  visible : ∀ b ∈ written, 0x20 ≤ b
  reads : ∀ rest, unescape (written ++ rest) = bytes ++ unescape rest

namespace Writes

variable {bytes : Text} {n w : Nat} {c : UInt8}

theorem verbatim (visible : ∀ b ∈ bytes, 0x20 ≤ b) (h : Ascii.backslash ∉ bytes) :
    Writes bytes bytes := by
  refine ⟨visible, fun rest => ?_⟩
  clear visible
  induction bytes with
  | nil => rfl
  | cons c bytes ih =>
    rw [List.mem_cons, not_or] at h
    rw [List.cons_append, unescape, unescapeAfter, if_neg (Ne.symm h.1), ← unescape, ih h.2]
    rfl

/-- An escape of one byte names a byte, unless its byte announces a number. -/
theorem letter (visible : 0x20 ≤ c) (other : c ∉ utf8 "xuU") :
    Writes [Ascii.backslash, c] [named c] := by
  constructor
  · rintro b (_ | ⟨_, _ | ⟨_, h⟩⟩)
    · decide
    · exact visible
    · cases h
  · intro rest
    have kinds : c ≠ 0x78 ∧ c ≠ 0x75 ∧ c ≠ 0x55 := by
      refine ⟨?_, ?_, ?_⟩ <;> rintro rfl <;> exact other (by decide)
    rw [List.cons_append, unescape_backslash, List.cons_append, readEscape, if_neg kinds.1,
      if_neg kinds.2.1, if_neg kinds.2.2]
    rfl

/-- A number in hexadecimal digits is read as it was written. -/
theorem number {f : Nat → Text}
    (announces : ∀ t, readEscape (c :: t) = (f (hexValue (t.take w)), w + 1)) (visible : 0x20 ≤ c)
    (positive : 0 < w) (fits : n < 16 ^ w) (within : n < 0x10000000000000000) :
    Writes (Ascii.backslash :: c :: Numeral.hex w n) (f n) := by
  constructor
  · rintro b (_ | ⟨_, _ | ⟨_, h⟩⟩)
    · decide
    · exact visible
    · exact Numeral.visible_of_mem_hex h
  · intro rest
    have length := Numeral.length_hex positive fits
    have value : hexValue (Numeral.hex w n) = n := by
      rw [hexValue, Numeral.readDigits_hex w within]
      rfl
    rw [List.cons_append, unescape_backslash, List.cons_append, announces, List.take_left' length,
      value, List.drop_succ_cons, List.drop_left' length]

end Writes

theorem named_of_mem_controlLetters : ∀ control ∈ controlLetters,
    control.1 < 0x80 ∧ 0x20 ≤ control.2.toNat.toUInt8 ∧ control.2.toNat.toUInt8 ∉ utf8 "xuU" ∧
      named control.2.toNat.toUInt8 = control.1.toUInt8 := by
  decide

theorem mem_controlLetters {code : Nat} {letter : Char}
    (h : controlLetters.lookup code = some letter) : (code, letter) ∈ controlLetters := by
  obtain ⟨before, after, parts, _⟩ := List.lookup_eq_some_iff.mp h
  rw [parts]
  simp

theorem bytes_of_lt {code : Nat} (h : code < 0x80) :
    (Utf8.Item.point code).bytes = [code.toUInt8] :=
  if_pos h

theorem writes_printable {code : Nat} (printable : Printable.isPrintable code = true)
    (other : code ≠ Ascii.backslash.toNat) (bounded : code ≤ 0x10ffff) :
    Writes (Utf8.encode code) (Utf8.encode code) := by
  by_cases small : code < 0x80
  · have visible : 0x20 ≤ code := by
      rw [Printable.isPrintable, if_pos small, Bool.and_eq_true, decide_eq_true_iff] at printable
      exact printable.1
    have toNat : code.toUInt8.toNat = code :=
      UInt8.toNat_ofNat_of_lt' (Nat.lt_trans small (by decide))
    rw [Utf8.encode, if_pos small]
    refine .verbatim (fun b h => ?_) fun h => other ?_
    · cases List.mem_singleton.mp h
      rw [UInt8.le_iff_toNat_le, toNat]
      exact visible
    · rw [List.mem_singleton.mp h, toNat]
  · -- The bytes of a longer sequence are none of those with a meaning in quotes.
    have high (b : UInt8) (h : b ∈ Utf8.encode code) : 0x80 ≤ b :=
      Utf8.le_of_mem_encode (Nat.not_lt.mp small) bounded h
    refine .verbatim (fun b h => UInt8.le_trans (by decide) (high b h)) fun h => ?_
    exact absurd (high _ h) (by decide)

/-- Every item is written so that its bytes are read back. -/
theorem writes_escape {item : Utf8.Item} (bounded : item.Bounded) :
    Writes (escape item) item.bytes := by
  cases item with
  | stray byte =>
    have fits : byte.toNat < 16 ^ 2 := byte.toNat_lt
    have written := Writes.number (f := fun n => [n.toUInt8]) (fun t => rfl) (c := 0x78) (by decide)
      (by decide) fits (by omega)
    rwa [Utf8.toUInt8_eq rfl] at written
  | point code =>
    have bounded : code ≤ 0x10ffff := bounded
    rw [escape]
    split
    · next special =>
      rw [Bool.or_eq_true, decide_eq_true_iff, decide_eq_true_iff] at special
      rcases special with rfl | rfl
      · exact .letter (by decide) (by decide)
      · exact .letter (by decide) (by decide)
    next plain =>
    split
    · next printable =>
      exact writes_printable printable (fun eq => plain (by simp [eq])) bounded
    split
    · next letter found =>
      obtain ⟨small, visible, other, names⟩ :=
        named_of_mem_controlLetters _ (mem_controlLetters found)
      rw [bytes_of_lt small, ← names]
      exact .letter visible other
    split
    · next small =>
      rw [bytes_of_lt small]
      exact .number (f := fun n => [n.toUInt8]) (fun t => rfl) (c := 0x78) (by decide) (by decide)
        (by omega) (by omega)
    split
    · exact .number (f := Utf8.encode) (fun t => rfl) (c := 0x75) (by decide) (by decide) (by omega)
        (by omega)
    · exact .number (f := Utf8.encode) (fun t => rfl) (c := 0x55) (by decide) (by decide) (by omega)
        (by omega)

theorem writes_flatMap_escape {items : List Utf8.Item} (bounded : ∀ item ∈ items, item.Bounded) :
    Writes (items.flatMap escape) (items.flatMap Utf8.Item.bytes) := by
  induction items with
  | nil => exact ⟨nofun, fun rest => rfl⟩
  | cons item items ih =>
    have head := writes_escape (bounded item List.mem_cons_self)
    have tail := ih fun other h => bounded other (List.mem_cons_of_mem _ h)
    rw [List.flatMap_cons, List.flatMap_cons]
    constructor
    · intro b h
      exact (List.mem_append.mp h).elim (head.visible b) (tail.visible b)
    · intro rest
      rw [List.append_assoc, head.reads, tail.reads, List.append_assoc]

end Quoted

namespace Text

def unquoted (t : Text) : Text := Quoted.unescape (t.drop 1).dropLast

theorem unquoted_quoted (t : Text) : t.quoted.unquoted = t := by
  have written := Quoted.writes_flatMap_escape fun _ => Utf8.bounded_of_mem_items (t := t)
  have reads := written.reads []
  rw [Utf8.flatMap_bytes_items, List.append_nil] at reads
  rw [unquoted, quoted, List.cons_append, List.drop_one, List.tail_cons, List.dropLast_concat,
    reads]
  exact List.append_nil t

theorem visible_of_mem_quoted {t : Text} {c : UInt8} (h : c ∈ t.quoted) : 0x20 ≤ c := by
  have written := Quoted.writes_flatMap_escape fun _ => Utf8.bounded_of_mem_items (t := t)
  rcases List.mem_append.mp h with h | h
  · rcases List.mem_cons.mp h with rfl | h
    · decide
    · exact written.visible c h
  · cases List.mem_singleton.mp h
    decide

end Text

end CMakeSense
