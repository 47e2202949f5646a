import CMakeSense.Catalog.Command

/-! Letter case of single bytes. Texts that agree up to the case of their ASCII letters have the
same code points but for those letters, since no other byte is read differently beside them. So they
are the same text in lower case (`Text.SameLetters.toLower_eq`) and name the same command. -/

namespace CMakeSense

/-- The byte with an ASCII letter in lower case. -/
def Ascii.lower (c : UInt8) : UInt8 := if 0x41 ≤ c && c ≤ 0x5a then c + 0x20 else c

namespace Ascii

variable {a b c : UInt8}

theorem toNat_lower (c : UInt8) :
    (lower c).toNat = if 0x41 ≤ c.toNat ∧ c.toNat ≤ 0x5a then c.toNat + 0x20 else c.toNat := by
  have upper : ((0x41 ≤ c && c ≤ 0x5a) = true) ↔ 0x41 ≤ c.toNat ∧ c.toNat ≤ 0x5a := by
    rw [Bool.and_eq_true, decide_eq_true_iff, decide_eq_true_iff, UInt8.le_iff_toNat_le,
      UInt8.le_iff_toNat_le]
    exact Iff.rfl
  rw [lower]
  split
  · next h =>
    rw [upper] at h
    rw [if_pos h, UInt8.toNat_add]
    exact Nat.mod_eq_of_lt (show c.toNat + 32 < 256 by omega)
  · next h =>
    rw [upper] at h
    rw [if_neg h]

theorem isLetter_iff : isLetter c = true ↔
    0x41 ≤ c.toNat ∧ c.toNat ≤ 0x5a ∨ 0x61 ≤ c.toNat ∧ c.toNat ≤ 0x7a := by
  simp only [isLetter, Bool.or_eq_true, Bool.and_eq_true, decide_eq_true_eq,
    UInt8.le_iff_toNat_le]
  exact Iff.rfl

/-- Bytes that agree up to letter case are equal or both letters. -/
theorem eq_or_isLetter_of_lower_eq (same : lower a = lower b) :
    a = b ∨ isLetter a = true ∧ isLetter b = true := by
  have toNat := congrArg UInt8.toNat same
  rw [toNat_lower, toNat_lower] at toNat
  rw [isLetter_iff, isLetter_iff, ← UInt8.toNat_inj]
  split at toNat <;> split at toNat <;> omega

theorem eq_of_lower_eq (same : lower a = lower b) (other : isLetter b = false) : a = b := by
  rcases eq_or_isLetter_of_lower_eq same with eq | ⟨_, letter⟩
  · exact eq
  · rw [other] at letter
    cases letter

theorem isSpace_of_isLetter (letter : isLetter c = true) : isSpace c = false := by
  rw [isLetter_iff] at letter
  refine Bool.eq_false_iff.mpr fun space => ?_
  simp only [isSpace, Bool.or_eq_true, Bool.and_eq_true, beq_iff_eq, decide_eq_true_eq,
    UInt8.le_iff_toNat_le, ← UInt8.toNat_inj] at space
  have : c.toNat = 32 ∨ 9 ≤ c.toNat ∧ c.toNat ≤ 13 := space
  omega

theorem isSpace_eq_of_lower_eq (same : lower a = lower b) : isSpace a = isSpace b := by
  rcases eq_or_isLetter_of_lower_eq same with rfl | ⟨left, right⟩
  · rfl
  · rw [isSpace_of_isLetter left, isSpace_of_isLetter right]

/-- A byte past the ASCII range is no letter, and no other byte becomes one. -/
theorem lower_lt_iff (c : UInt8) : lower c < 0x80 ↔ c < 0x80 := by
  rw [UInt8.lt_iff_toNat_lt, UInt8.lt_iff_toNat_lt, toNat_lower]
  show (_ < 128) ↔ c.toNat < 128
  split <;> omega

theorem lower_of_le (high : ¬ c < 0x80) : lower c = c := by
  rw [← UInt8.toNat_inj, toNat_lower, if_neg]
  rw [UInt8.lt_iff_toNat_lt] at high
  have : ¬ c.toNat < 128 := high
  omega

theorem lowerCode_lower (low : c < 0x80) :
    Casing.lowerCode (lower c).toNat = Casing.lowerCode c.toNat := by
  rw [UInt8.lt_iff_toNat_lt] at low
  have low : c.toNat < 128 := low
  rw [toNat_lower]
  split
  · next upper =>
    have plain : ¬(0x41 ≤ c.toNat + 0x20 && c.toNat + 0x20 ≤ 0x5a) = true := by
      simp only [Bool.and_eq_true, decide_eq_true_eq]
      omega
    have letter : (0x41 ≤ c.toNat && c.toNat ≤ 0x5a) = true := by simpa using upper
    rw [Casing.lowerCode, if_pos (by omega), if_neg plain, Casing.lowerCode, if_pos low,
      if_pos letter]
  · rfl

end Ascii

namespace Utf8

theorem continuation?_map_lower (acc k : Nat) (t : Text) :
    continuation? acc k (t.map Ascii.lower) = continuation? acc k t := by
  induction t generalizing acc k with
  | nil => rfl
  | cons b t ih =>
    cases k with
    | zero => rfl
    | succ k =>
      rw [List.map_cons, continuation?, continuation?]
      by_cases low : b < 0x80
      · have low' := (Ascii.lower_lt_iff b).mpr low
        rw [if_neg (by simp [UInt8.not_le.mpr low']), if_neg (by simp [UInt8.not_le.mpr low])]
      · rw [Ascii.lower_of_le low, ih]

theorem sequence?_map_lower (a : UInt8) (t : Text) :
    sequence? a (t.map Ascii.lower) = sequence? a t := by
  simp only [sequence?, continuation?_map_lower]

/-- What stands at the head of a text in lower case stands there in the text, but for its case. -/
theorem first_map_lower (a : UInt8) (t : Text) :
    Casing.lowerCode (first (Ascii.lower a) (t.map Ascii.lower)).1.code =
        Casing.lowerCode (first a t).1.code ∧
      (first (Ascii.lower a) (t.map Ascii.lower)).2 = (first a t).2 := by
  by_cases low : a < 0x80
  · rw [first, first, if_pos low, if_pos ((Ascii.lower_lt_iff a).mpr low)]
    exact ⟨Ascii.lowerCode_lower low, rfl⟩
  · rw [Ascii.lower_of_le low, first, first, sequence?_map_lower]
    exact ⟨rfl, rfl⟩

theorem lowerCode_itemsAfter_map_lower (k : Nat) (t : Text) :
    (itemsAfter k (t.map Ascii.lower)).map (fun item => Casing.lowerCode item.code) =
      (itemsAfter k t).map fun item => Casing.lowerCode item.code := by
  induction t generalizing k with
  | nil => cases k <;> rfl
  | cons a t ih =>
    cases k with
    | zero =>
      obtain ⟨code, count⟩ := first_map_lower a t
      rw [List.map_cons, itemsAfter, itemsAfter, List.map_cons, List.map_cons, code, count, ih]
    | succ k => exact ih k

end Utf8

namespace Text

/-- The texts agree up to the case of ASCII letters. -/
def SameLetters (t u : Text) : Prop := t.map Ascii.lower = u.map Ascii.lower

theorem toLower_map_lower (t : Text) : toLower (t.map Ascii.lower) = toLower t := by
  have flat (u : Text) : toLower u =
      ((Utf8.items u).map fun item => Casing.lowerCode item.code).flatMap Utf8.encode := by
    rw [List.flatMap_map]
    rfl
  rw [flat, flat, Utf8.items, Utf8.lowerCode_itemsAfter_map_lower]
  rfl

namespace SameLetters

variable {t u : Text}

theorem toLower_eq (h : SameLetters t u) : toLower t = toLower u := by
  rw [← toLower_map_lower t, h, toLower_map_lower]

theorem length_eq (h : SameLetters t u) : t.length = u.length := by
  simpa using congrArg List.length h

theorem take (h : SameLetters t u) (n : Nat) : SameLetters (t.take n) (u.take n) := by
  rw [SameLetters, List.map_take, List.map_take, h]

theorem drop (h : SameLetters t u) (n : Nat) : SameLetters (t.drop n) (u.drop n) := by
  rw [SameLetters, List.map_drop, List.map_drop, h]

theorem head?_eq_some_iff (h : SameLetters t u) {c : UInt8} (other : Ascii.isLetter c = false) :
    t.head? = some c ↔ u.head? = some c := by
  have heads := congrArg List.head? h
  rw [List.head?_map, List.head?_map] at heads
  cases t with
  | nil =>
    cases u with
    | nil => exact Iff.rfl
    | cons b u => cases heads
  | cons a t =>
    cases u with
    | nil => cases heads
    | cons b u =>
      have same : Ascii.lower a = Ascii.lower b := Option.some.inj heads
      simp only [List.head?_cons, Option.some.injEq]
      constructor
      · rintro rfl
        exact Ascii.eq_of_lower_eq same.symm other
      · rintro rfl
        exact Ascii.eq_of_lower_eq same other

end SameLetters

end Text

/-- A command is named in any letter case. -/
theorem Command.ofName?_eq_of_sameLetters {t u : Text} (h : Text.SameLetters t u) :
    ofName? t = ofName? u := by
  simp only [ofName?, h.toLower_eq]

end CMakeSense
