import CMakeSense.Text.Utf8

/-! Reading UTF-8 skips nothing. The bytes of a code point that is read are those it is read from
(`Utf8.encode_of_sequence?`), and a stray byte is itself, so the items of a text put together again
give the text (`Utf8.flatMap_bytes_items`), whatever bytes it has. -/

namespace CMakeSense.Utf8

/-- The bytes of an item. -/
def Item.bytes : Item → Text
  | .point code => encode code
  | .stray byte => [byte]

/-- No code point lies past the last one. -/
def Item.Bounded : Item → Prop
  | .point code => code ≤ 0x10ffff
  | .stray _ => True

variable {a : UInt8} {t : Text} {k acc code count : Nat}

theorem toUInt8_eq {n : Nat} {b : UInt8} (h : n = b.toNat) : n.toUInt8 = b := by
  subst h
  exact UInt8.ofNat_toNat

theorem continuation?_succ (h : continuation? acc (k + 1) t = some code) :
    ∃ b rest, t = b :: rest ∧ 0x80 ≤ b.toNat ∧ b.toNat < 0xc0 ∧
      continuation? (acc * 64 + (b.toNat - 0x80)) k rest = some code := by
  cases t with
  | nil => cases h
  | cons b rest =>
    rw [continuation?] at h
    split at h
    · next within =>
      rw [Bool.and_eq_true, decide_eq_true_iff, decide_eq_true_iff] at within
      exact ⟨b, rest, rfl, within.1, within.2, h⟩
    · cases h

/-- The bits of a lead byte, by the length of the sequence that it begins. -/
theorem lead?_eq_some {bits least : Nat} (h : lead? a = some (count, bits, least)) :
    (count = 1 ∧ least = 0x80 ∧ bits < 0x20 ∧ a.toNat = 0xc0 + bits) ∨
    (count = 2 ∧ least = 0x800 ∧ bits < 0x10 ∧ a.toNat = 0xe0 + bits) ∨
    (count = 3 ∧ least = 0x10000 ∧ bits < 0x8 ∧ a.toNat = 0xf0 + bits) := by
  simp only [lead?, UInt8.lt_iff_toNat_lt, UInt8.reduceToNat] at h
  split at h
  · cases h
  split at h
  · simp only [Option.some.injEq, Prod.mk.injEq] at h
    omega
  split at h
  · simp only [Option.some.injEq, Prod.mk.injEq] at h
    omega
  split at h
  · simp only [Option.some.injEq, Prod.mk.injEq] at h
    omega
  · cases h

/-- The sequence of a code point is the one that it is read from. -/
theorem encode_of_sequence? (h : sequence? a t = some (code, count)) :
    encode code = a :: t.take count ∧ 0x80 ≤ code ∧ code ≤ 0x10ffff := by
  obtain ⟨⟨count', bits, least⟩, lead, h⟩ := Option.bind_eq_some_iff.mp h
  obtain ⟨code', read, h⟩ := Option.bind_eq_some_iff.mp h
  split at h
  · next valid =>
    cases h
    simp only [Bool.and_eq_true, decide_eq_true_iff] at valid
    obtain ⟨⟨enough, within⟩, -⟩ := valid
    -- The least code point of each length excludes the shorter forms, which `encode` would choose.
    rcases lead?_eq_some lead with ⟨rfl, rfl, small, first⟩ | ⟨rfl, rfl, small, first⟩ |
      ⟨rfl, rfl, small, first⟩
    · obtain ⟨b, rest, rfl, _, _, read⟩ := continuation?_succ read
      obtain rfl := Option.some.inj read
      refine ⟨?_, by omega, within⟩
      rw [encode, if_neg (by omega), if_pos (by omega), toUInt8_eq (b := a) (by omega),
        toUInt8_eq (b := b) (by omega)]
      rfl
    · obtain ⟨b, _, rfl, _, _, read⟩ := continuation?_succ read
      obtain ⟨c, _, rfl, _, _, read⟩ := continuation?_succ read
      obtain rfl := Option.some.inj read
      refine ⟨?_, by omega, within⟩
      rw [encode, if_neg (by omega), if_neg (by omega), if_pos (by omega),
        toUInt8_eq (b := a) (by omega), toUInt8_eq (b := b) (by omega),
        toUInt8_eq (b := c) (by omega)]
      rfl
    · obtain ⟨b, _, rfl, _, _, read⟩ := continuation?_succ read
      obtain ⟨c, _, rfl, _, _, read⟩ := continuation?_succ read
      obtain ⟨d, _, rfl, _, _, read⟩ := continuation?_succ read
      obtain rfl := Option.some.inj read
      refine ⟨?_, by omega, within⟩
      rw [encode, if_neg (by omega), if_neg (by omega), if_neg (by omega),
        toUInt8_eq (b := a) (by omega), toUInt8_eq (b := b) (by omega),
        toUInt8_eq (b := c) (by omega), toUInt8_eq (b := d) (by omega)]
      rfl
  · cases h

theorem bytes_first (a : UInt8) (t : Text) :
    (first a t).1.bytes = a :: t.take (first a t).2 ∧ (first a t).1.Bounded := by
  unfold first
  split
  · next small =>
    have below : a.toNat < 0x80 := small
    refine ⟨?_, Nat.le_trans (Nat.le_of_lt below) (by decide)⟩
    rw [Item.bytes, encode, if_pos below, toUInt8_eq rfl]
    rfl
  · split
    · next found =>
      obtain ⟨encoded, _, within⟩ := encode_of_sequence? found
      exact ⟨encoded, within⟩
    · exact ⟨rfl, trivial⟩

theorem flatMap_bytes_itemsAfter (k : Nat) (t : Text) :
    (itemsAfter k t).flatMap Item.bytes = t.drop k := by
  fun_induction itemsAfter k t with
  | case1 => simp
  | case2 k _ t ih => rw [ih, List.drop_succ_cons]
  | case3 a t ih => simp [ih, (bytes_first a t).1]

theorem flatMap_bytes_items (t : Text) : (items t).flatMap Item.bytes = t :=
  flatMap_bytes_itemsAfter 0 t

theorem bounded_of_mem_items {item : Item} (h : item ∈ items t) : item.Bounded := by
  unfold items at h
  generalize 0 = k at h
  fun_induction itemsAfter k t with
  | case1 => cases h
  | case2 _ _ _ ih => exact ih h
  | case3 a t ih =>
    rcases List.mem_cons.mp h with rfl | h
    · exact (bytes_first a t).2
    · exact ih h

theorem le_of_mem_encode {b : UInt8} (large : 0x80 ≤ code) (within : code ≤ 0x10ffff)
    (h : b ∈ encode code) : 0x80 ≤ b := by
  have high {n : Nat} (low : 0x80 ≤ n) (small : n < 0x100) : 0x80 ≤ n.toUInt8 := by
    rw [UInt8.le_iff_toNat_le, UInt8.toNat_ofNat_of_lt' small]
    exact low
  rw [encode, if_neg (by omega)] at h
  split at h
  · simp only [List.mem_cons, List.not_mem_nil, or_false] at h
    rcases h with rfl | rfl <;> exact high (by omega) (by omega)
  split at h
  · simp only [List.mem_cons, List.not_mem_nil, or_false] at h
    rcases h with rfl | rfl | rfl <;> exact high (by omega) (by omega)
  · simp only [List.mem_cons, List.not_mem_nil, or_false] at h
    rcases h with rfl | rfl | rfl | rfl <;> exact high (by omega) (by omega)

end CMakeSense.Utf8
