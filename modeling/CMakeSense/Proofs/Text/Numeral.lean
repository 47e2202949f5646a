import CMakeSense.Text.Numeral
import Mathlib.Algebra.Group.Nat.Defs

/-! Numerals read back. Digits are written from the last one backwards (`Numeral.digits_eq`), and
reading them again gives the number: `Numeral.value` for decimal digits, `Numeral.readDigits` for
digits of any base and numbers of 64 bits. -/

namespace CMakeSense.Numeral

variable {base n : Nat} {c : UInt8}

/-- The digit for a number below sixteen. -/
def digit (d : Nat) : UInt8 := (Nat.digitChar d).toNat.toUInt8

theorem digitValue?_digit : ∀ d < 16, digitValue? (digit d) = some d := by decide

theorem isDigit_digit : ∀ d < 10, Ascii.isDigit (digit d) = true ∧ (digit d).toNat - 0x30 = d := by
  decide

theorem digit_visible : ∀ d < 16, 0x20 ≤ digit d ∧ digit d ≠ Ascii.underscore := by decide

theorem digits_eq (h : 1 < base) : digits base n =
    if n < base then [digit n] else digits base (n / base) ++ [digit (n % base)] := by
  rw [digits, Nat.toDigits_eq_if h]
  split
  · rfl
  · rw [List.map_append]
    rfl

/-- What holds of every digit of a base holds of all digits of a number. -/
theorem of_mem_digits (hb : 1 < base) {p : UInt8 → Prop} (holds : ∀ d < base, p (digit d))
    (h : c ∈ digits base n) : p c := by
  induction n using Nat.strongRecOn with
  | ind n ih =>
    rw [digits_eq hb] at h
    split at h
    · next small =>
      cases List.mem_singleton.mp h
      exact holds n small
    · next large =>
      rcases List.mem_append.mp h with h | h
      · exact ih (n / base) (Nat.div_lt_self (by omega) hb) h
      · cases List.mem_singleton.mp h
        exact holds _ (Nat.mod_lt n (by omega))

theorem isDigit_of_mem_decimal (h : c ∈ decimal n) : Ascii.isDigit c = true :=
  of_mem_digits (p := (Ascii.isDigit · = true)) (by decide) (fun d hd => (isDigit_digit d hd).1) h

theorem value_decimal (n : Nat) : value (decimal n) = n := by
  induction n using Nat.strongRecOn with
  | ind n ih =>
    have last (ds : Text) {d : Nat} (hd : d < 10) :
        value (ds ++ [digit d]) = value ds * 10 + d := by
      rw [value, List.foldl_append, List.foldl_cons, List.foldl_nil, (isDigit_digit d hd).2]
      rfl
    rw [decimal, digits_eq (by decide)]
    split
    · next small => simpa [value] using last [] small
    · rw [last _ (Nat.mod_lt n (by decide)), ← decimal, ih (n / 10) (by omega)]
      omega

theorem readDigits_append {n m : Nat} {a b : Text} (h : readDigits base n a = .ok m) :
    readDigits base n (a ++ b) = readDigits base m b := by
  fun_induction readDigits base n a with
  | case1 n =>
    cases h
    rfl
  | case2 n rest ih => rw [List.cons_append, readDigits, if_pos rfl, ih h]
  | case3 => cases h
  | case4 => cases h
  | case5 => cases h
  | case6 n c rest other d found small within ih =>
    rw [List.cons_append, readDigits, if_neg other, found]
    simp only [if_neg small, if_neg within, ih h]

theorem readDigits_digit {d : Nat} (h : base ≤ 16) (hd : d < base)
    (within : n * base + d < 0x10000000000000000) (rest : Text) :
    readDigits base n (digit d :: rest) = readDigits base (n * base + d) rest := by
  have below : d < 16 := Nat.lt_of_lt_of_le hd h
  rw [readDigits, if_neg (digit_visible d below).2, digitValue?_digit d below]
  simp only [if_neg (Nat.not_le.mpr hd), if_neg (Nat.not_le.mpr within)]

/-- A number of 64 bits reads back from its digits. -/
theorem readDigits_digits (hb : 1 < base) (h : base ≤ 16) (within : n < 0x10000000000000000) :
    readDigits base 0 (digits base n) = .ok n := by
  induction n using Nat.strongRecOn with
  | ind n ih =>
    rw [digits_eq hb]
    split
    · next small => rw [readDigits_digit h small (by omega), Nat.zero_mul, Nat.zero_add, readDigits]
    · next large =>
      -- What is read so far never passes the number itself, so the limit is not met on the way.
      have parts : n / base * base + n % base = n := Nat.div_add_mod' n base
      have smaller : n / base < n := Nat.div_lt_self (by omega) hb
      have front := ih (n / base) smaller (by omega)
      rw [readDigits_append front, readDigits_digit h (Nat.mod_lt n (by omega)) (by omega), parts,
        readDigits]

theorem length_hex {width : Nat} (positive : 0 < width) (h : n < 16 ^ width) :
    (hex width n).length = width := by
  have short : (digits 16 n).length ≤ width := by
    rw [digits, List.length_map]
    exact (Nat.length_toDigits_le_iff (by decide) positive).mpr h
  simp only [hex, List.length_append, List.length_replicate]
  omega

theorem readDigits_hex (width : Nat) (within : n < 0x10000000000000000) :
    readDigits 16 0 (hex width n) = .ok n := by
  have zeros (k : Nat) : readDigits 16 0 (List.replicate k 0x30) = .ok 0 := by
    induction k with
    | zero => rfl
    | succ k ih => exact (readDigits_digit (d := 0) (by decide) (by decide) (by decide) _).trans ih
  rw [hex, readDigits_append (zeros _)]
  exact readDigits_digits (by decide) (by decide) within

theorem visible_of_mem_hex {width : Nat} (h : c ∈ hex width n) : 0x20 ≤ c := by
  rcases List.mem_append.mp h with h | h
  · rw [(List.mem_replicate.mp h).2]
    decide
  · exact of_mem_digits (by decide) (fun d hd => (digit_visible d hd).1) h

end CMakeSense.Numeral
