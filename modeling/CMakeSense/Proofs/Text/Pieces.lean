import CMakeSense.Text.Basic

/-! Cutting a text at a byte and joining the pieces again. The pieces do not contain the byte
(`Text.notMem_of_mem_splitOn`), and pieces that do not are given back from their joined text
(`Text.splitOn_join_of_notMem`), so texts correspond to the lists of such pieces. -/

namespace CMakeSense.Text

variable {c : UInt8}

theorem splitOn_of_notMem {a : Text} (h : c ∉ a) : splitOn c a = [a] := by
  induction a with
  | nil => rfl
  | cons b a ih =>
    rw [List.mem_cons, not_or] at h
    simp [splitOn, Ne.symm h.1, ih h.2]

theorem splitOn_append_cons {a : Text} (h : c ∉ a) (t : Text) :
    splitOn c (a ++ c :: t) = a :: splitOn c t := by
  rw [splitOn_append, splitOn_of_notMem h]
  rfl

theorem join_eq_flatMap (c : UInt8) (first : Text) (rest : List Text) :
    join [c] (first :: rest) = first ++ rest.flatMap (c :: ·) := by
  induction rest generalizing first with
  | nil => simp [join]
  | cons next rest ih => simp [join, ih]

theorem mem_join {pieces : List Text} {b : UInt8} (h : b ∈ join [c] pieces) :
    b = c ∨ ∃ piece ∈ pieces, b ∈ piece := by
  cases pieces with
  | nil => cases h
  | cons first rest =>
    rw [join_eq_flatMap, List.mem_append, List.mem_flatMap] at h
    rcases h with first_mem | ⟨piece, member, h⟩
    · exact .inr ⟨first, List.mem_cons_self, first_mem⟩
    · rcases List.mem_cons.mp h with rfl | h
      · exact .inl rfl
      · exact .inr ⟨piece, List.mem_cons_of_mem first member, h⟩

/-- The bytes of a piece are bytes of the text other than the separator. -/
theorem mem_of_mem_splitOn {t piece : Text} {b : UInt8} (h : piece ∈ splitOn c t) (hb : b ∈ piece) :
    b ∈ t ∧ b ≠ c := by
  induction t generalizing piece with
  | nil =>
    cases List.mem_singleton.mp h
    cases hb
  | cons d t ih =>
    obtain ⟨first, rest, split⟩ := List.exists_cons_of_ne_nil (splitOn_ne_nil c t)
    rw [split] at ih
    have later {piece : Text} (h : piece ∈ first :: rest) (hb : b ∈ piece) : b ∈ d :: t ∧ b ≠ c :=
      ⟨List.mem_cons_of_mem d (ih h hb).1, (ih h hb).2⟩
    by_cases hd : d = c
    · rw [splitOn, if_pos hd, split] at h
      rcases List.mem_cons.mp h with rfl | h
      · cases hb
      · exact later h hb
    · rw [splitOn, if_neg hd, split] at h
      rcases List.mem_cons.mp h with rfl | h
      · rcases List.mem_cons.mp hb with rfl | hb
        · exact ⟨List.mem_cons_self, hd⟩
        · exact later List.mem_cons_self hb
      · exact later (List.mem_cons_of_mem first h) hb

theorem notMem_of_mem_splitOn {t piece : Text} (h : piece ∈ splitOn c t) : c ∉ piece :=
  fun hc => (mem_of_mem_splitOn h hc).2 rfl

/-- Pieces without the separator are found again in their joined text. -/
theorem splitOn_join_of_notMem {first : Text} {rest : List Text}
    (h : ∀ piece ∈ first :: rest, c ∉ piece) :
    splitOn c (join [c] (first :: rest)) = first :: rest := by
  induction rest generalizing first with
  | nil => exact splitOn_of_notMem (h first List.mem_cons_self)
  | cons next rest ih =>
    have tail := ih fun piece member => h piece (List.mem_cons_of_mem first member)
    have cut := splitOn_append_cons (h first List.mem_cons_self) (join [c] (next :: rest))
    rw [tail] at cut
    simpa [join] using cut

theorem cut?_of_notMem {a : Text} (h : c ∉ a) : cut? c a = none := by
  have all : ∀ b ∈ a, decide (b ≠ c) = true := fun b hb => decide_eq_true fun eq => h (eq ▸ hb)
  rw [← List.append_nil a, cut?, List.dropWhile_append_of_pos all]
  rfl

theorem cut?_append {a : Text} (h : c ∉ a) (t : Text) : cut? c (a ++ c :: t) = some (a, t) := by
  have all : ∀ b ∈ a, decide (b ≠ c) = true := fun b hb => decide_eq_true fun eq => h (eq ▸ hb)
  rw [cut?, List.dropWhile_append_of_pos all, List.takeWhile_append_of_pos all]
  simp

end CMakeSense.Text
