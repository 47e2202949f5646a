import CMakeSense.Proofs.Text.LetterCase

/-! Letter case of ASCII texts. Lower case and folding tell the same ASCII texts apart, since both
act byte by byte there (`Text.IsAscii.folded_eq`). Other texts can be equal in lower case and yet
differ up to case. -/

namespace CMakeSense

/-- All code points are single bytes. -/
def Text.IsAscii (t : Text) : Prop := ∀ c ∈ t, c < 0x80

instance (t : Text) : Decidable t.IsAscii := inferInstanceAs (Decidable (∀ c ∈ t, c < 0x80))

theorem Casing.lowerCode_lt {code : Nat} (h : code < 0x80) : lowerCode code < 0x80 := by
  rw [lowerCode, if_pos h]
  split
  · next upper =>
    rw [Bool.and_eq_true, decide_eq_true_iff, decide_eq_true_iff] at upper
    omega
  · exact h

namespace Text.IsAscii

variable {t u : Text}

/-- The folded code points of an ASCII text are the bytes of the text in lower case. -/
theorem folded_eq (h : t.IsAscii) : folded t = (toLower t).map (·.toNat) := by
  rw [folded, toLower, mapCodes, Utf8.items_of_ascii h, List.map_map, List.flatMap_map]
  induction t with
  | nil => rfl
  | cons c t ih =>
    have low : c.toNat < 0x80 := UInt8.lt_iff_toNat_lt.mp (h c List.mem_cons_self)
    have lowered := Casing.lowerCode_lt low
    have byte : (Casing.lowerCode c.toNat).toUInt8.toNat = Casing.lowerCode c.toNat := by
      rw [Nat.toUInt8, UInt8.toNat_ofNat']
      omega
    rw [List.map_cons, List.flatMap_cons, List.map_append, ih fun d hd => h d (.tail c hd)]
    simp [Utf8.Item.code, Casing.foldCode, Utf8.encode, low, lowered, byte]

/-- ASCII texts that are equal in lower case are equal up to case. -/
theorem equalFold_eq_of_toLower_eq (ht : t.IsAscii) (hu : u.IsAscii) (same : toLower t = toLower u)
    (name : Text) : t.equalFold name = u.equalFold name := by
  rw [equalFold, equalFold, ht.folded_eq, hu.folded_eq, same]

end Text.IsAscii

end CMakeSense
