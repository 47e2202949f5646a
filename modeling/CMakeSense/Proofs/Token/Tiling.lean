import CMakeSense.Proofs.Token.Effect

/-! Scanning loses nothing. Every token lies within what is left of its line
(`Lexeme.next_length_le`) and takes at least one byte of it, so the tokens of a line tile it
(`Scan.tiles_movesFrom`): they lie end to end, none is empty, and together they are the line. This
holds of any state whatsoever, also of one that no scan reaches. A byte that is left to the rule for
words always begins one (`Lexeme.ReadsWord.pos_lt_skipWord`), so that the only tokens without a
meaning are braces. -/

namespace CMakeSense

theorem Text.indexOf?_le {p t : Text} {i : Nat} (h : indexOf? p t = some i) :
    i + p.length ≤ t.length := by
  induction t generalizing i with
  | nil =>
    simp only [indexOf?] at h
    split at h
    · next empty =>
      cases h
      simp [List.isEmpty_iff.mp empty]
    · cases h
  | cons c t ih =>
    simp only [indexOf?] at h
    split at h
    · next begins =>
      cases h
      have := (List.isPrefixOf_iff_prefix.mp begins).length_le
      omega
    · obtain ⟨j, found, rfl⟩ := Option.map_eq_some_iff.mp h
      have := ih found
      rw [List.length_cons]
      omega

namespace Lexeme

theorem opener?_spec {t : Text} {kind : TokenKind} {n : Nat} (h : opener? t = some (kind, n)) :
    kind ≠ .other ∧ n ≤ t.length := by
  have within {p : Text} (begins : p.isPrefixOf t = true) : p.length ≤ t.length :=
    (List.isPrefixOf_iff_prefix.mp begins).length_le
  simp only [opener?] at h
  split at h
  · next begins =>
    cases h
    exact ⟨by decide, within begins⟩
  split at h
  · next begins =>
    cases h
    exact ⟨by decide, within begins⟩
  split at h
  · next begins =>
    cases h
    exact ⟨by decide, within begins⟩
  · cases h

theorem wordLength_le (t : Text) : wordLength t ≤ t.length := by
  fun_induction wordLength t with
  | case1 => exact Nat.le_refl _
  | case2 => exact Nat.zero_le _
  | case3 => exact Nat.le_refl _
  | case4 _ _ _ ih =>
    simp only [List.length_cons]
    omega
  | case5 _ _ _ _ ih =>
    simp only [List.length_cons]
    omega

theorem stringLength_le (t : Text) : (stringLength t).1 ≤ t.length := by
  fun_induction stringLength t with
  | case1 => exact Nat.le_refl _
  | case2 => exact Nat.le_refl _
  | case3 _ _ ih =>
    simp only [List.length_cons]
    omega
  | case4 =>
    simp only [List.length_cons]
    omega
  | case5 _ _ _ _ ih =>
    simp only [List.length_cons]
    omega

theorem commentBody_length_le (s : State) (taken : Nat) (body : Text) :
    (commentBody s taken body).length ≤ taken + body.length := by
  unfold commentBody
  simp only
  split
  · next found =>
    have := Text.indexOf?_le found
    simp only
    omega
  · exact Nat.le_refl _

/-- The opener of a bracket comment is there in full. -/
theorem commentLevel?_lt {t : Text} {level : Nat} (h : commentLevel? t = some level) :
    level + 1 < t.length := by
  cases t with
  | nil => cases h
  | cons c t =>
    simp only [commentLevel?] at h
    split at h
    · split at h
      · next d rest hrest =>
        split at h
        · cases h
          have parts : t.takeWhile (· = Ascii.equals) ++ t.dropWhile (· = Ascii.equals) = t :=
            List.takeWhile_append_dropWhile
          replace parts := congrArg List.length parts
          rw [hrest, List.length_append, List.length_cons] at parts
          rw [List.length_cons]
          omega
        · cases h
      · cases h
    · cases h

theorem comment_length_le (s : State) (t : Text) : (comment s t).length ≤ t.length + 1 := by
  unfold comment
  split
  · next level opened =>
    have inside := commentLevel?_lt opened
    refine Nat.le_trans (commentBody_length_le ..) ?_
    rw [List.length_drop]
    omega
  · exact Nat.le_refl _

theorem word_length_eq (s : State) (rest : Text) : (word s rest).length = wordLength rest := by
  simp only [word]
  split <;> rfl

/-- A token ends where its line ends, at the latest. -/
theorem next_length_le (s : State) (c : UInt8) (t : Text) :
    (next s c t).length ≤ (c :: t).length := by
  unfold next
  split
  · exact Nat.le_trans (commentBody_length_le ..) (Nat.le_of_eq (Nat.zero_add _))
  split
  · exact Nat.le_trans (Nat.le_of_eq (Nat.zero_add _)) (stringLength_le _)
  split
  · exact comment_length_le ..
  split
  · exact (List.takeWhile_prefix _).length_le
  split
  · have := stringLength_le t
    simp only [stringBody, List.length_cons]
    omega
  split
  · rw [openParen_length, List.length_cons]
    omega
  split
  · rw [closeParen_length, List.length_cons]
    omega
  split
  · simp only [List.length_cons]
    omega
  split
  · next found => exact (opener?_spec found).2
  · rw [word_length_eq]
    exact wordLength_le _

/-- No rule but that for words applies at the head of `c :: t`. -/
structure ReadsWord (s : State) (c : UInt8) (t : Text) : Prop where
  comment : s.inComment = false
  string : s.inString = false
  hash : c ≠ Ascii.hash
  blank : Ascii.isSpace c = false
  delimiter : isDelimiter c = false
  opener : opener? (c :: t) = none

namespace ReadsWord

variable {s : State} {c : UInt8} {t : Text}

theorem next_eq (h : ReadsWord s c t) : next s c t = word s (c :: t) := by
  obtain ⟨comment, string, hash, blank, delimiter, opener⟩ := h
  simp only [isDelimiter, Bool.or_eq_false_iff, decide_eq_false_iff_not] at delimiter
  simp [next, comment, string, hash, blank, delimiter, opener]

theorem wordLength_pos (h : ReadsWord s c t) : 0 < wordLength (c :: t) :=
  Lexeme.wordLength_pos h.blank h.delimiter h.opener

/-- A scanner that comes to a word finds one: there is no byte to pass that begins nothing. -/
theorem pos_lt_skipWord (scanner : Scanner) (h : ReadsWord scanner.state c t)
    (rest : scanner.rest = c :: t) : scanner.pos < scanner.skipWord.pos := by
  rw [Scanner.skipWord_eq, rest]
  exact Nat.lt_add_of_pos_right h.wordLength_pos

end ReadsWord

theorem commentBody_kind (s : State) (taken : Nat) (body : Text) :
    (commentBody s taken body).kind = .comment := by
  unfold commentBody
  simp only
  split <;> rfl

theorem comment_kind (s : State) (t : Text) : (comment s t).kind = .comment := by
  unfold comment
  split
  · exact commentBody_kind ..
  · rfl

theorem openParen_kind (s : State) : (openParen s).kind = .openParen := by
  unfold openParen
  split
  · rfl
  · split <;> rfl

theorem closeParen_kind (s : State) : (closeParen s).kind = .closeParen := by
  unfold closeParen
  split <;> rfl

/-- A token without a meaning is a single brace. -/
theorem brace_of_next_kind {s : State} {c : UInt8} {t : Text} (h : (next s c t).kind = .other) :
    (c = Ascii.openBrace ∨ c = Ascii.closeBrace) ∧ (next s c t).length = 1 := by
  unfold next at h ⊢
  split at h
  · rw [commentBody_kind] at h
    cases h
  next comment =>
  rw [if_neg comment]
  split at h
  · cases h
  next string =>
  rw [if_neg string]
  split at h
  · rw [comment_kind] at h
    cases h
  next hash =>
  rw [if_neg hash]
  split at h
  · cases h
  next blank =>
  rw [if_neg blank]
  split at h
  · cases h
  next quote =>
  rw [if_neg quote]
  split at h
  · rw [openParen_kind] at h
    cases h
  next opening =>
  rw [if_neg opening]
  split at h
  · rw [closeParen_kind] at h
    cases h
  next closing =>
  rw [if_neg closing]
  split at h
  · next brace =>
    rw [if_pos brace]
    exact ⟨by simpa using brace, rfl⟩
  split at h
  · next found => exact absurd h (opener?_spec found).1
  · have isWord := isWord_word s (c :: t)
    rw [h] at isWord
    cases isWord

end Lexeme

/-- The bytes of a token that lies within its line. -/
theorem Token.text_eq_take {line : Text} {token : Token} (ordered : token.start ≤ token.stop)
    (within : token.stop ≤ line.length) :
    token.text line = (line.drop token.start).take token.length := by
  have inside : ¬(((token.start : Int) < 0 || (token.stop : Int) > line.length ||
      (token.start : Int) > token.stop) = true) := by
    simp only [Bool.or_eq_true, decide_eq_true_eq]
    omega
  have length : ((token.stop : Int) - token.start).toNat = token.length := by
    rw [Token.length]
    omega
  rw [Token.text, Token.range, ByteRange.text, if_neg inside, Int.toNat_natCast, length]

/-- The tokens lie end to end from an offset up to `stop`, and none of them is empty. -/
inductive Tiles (stop : Nat) : Nat → List Token → Prop where
  | nil : Tiles stop stop []
  | cons {token : Token} {tokens : List Token} (nonempty : token.start < token.stop)
      (within : token.stop ≤ stop) (rest : Tiles stop token.stop tokens) :
      Tiles stop token.start (token :: tokens)

/-- What tiles a line spells it. -/
theorem Tiles.flatMap_text {line : Text} {offset : Nat} {tokens : List Token}
    (tiles : Tiles line.length offset tokens) :
    tokens.flatMap (·.text line) = line.drop offset := by
  induction tiles with
  | nil => simp
  | @cons token tokens nonempty within _ ih =>
    have behind : line.drop token.stop = (line.drop token.start).drop token.length := by
      rw [List.drop_drop, Token.length]
      congr 1
      omega
    rw [List.flatMap_cons, ih, Token.text_eq_take (Nat.le_of_lt nonempty) within, behind,
      List.take_append_drop]

namespace Scan

/-- Scanning a rest of a line tiles it. -/
theorem tiles_movesFrom (s : State) (offset : Nat) (rest : Text) :
    Tiles (offset + rest.length) offset ((movesFrom s offset rest).map (·.token)) := by
  fun_induction movesFrom s offset rest with
  | case1 => exact .nil
  | case2 s offset c t lexeme ih =>
    have positive : 0 < lexeme.length := Lexeme.next_length_pos s c t
    have within : lexeme.length ≤ (c :: t).length := Lexeme.next_length_le s c t
    have total : offset + lexeme.length + ((c :: t).drop lexeme.length).length =
        offset + (c :: t).length := by
      rw [List.length_drop]
      omega
    rw [total] at ih
    have nonempty : (lexeme.token offset).start < (lexeme.token offset).stop :=
      Nat.lt_add_of_pos_right positive
    exact Tiles.cons nonempty (Nat.add_le_add_left within offset) ih

theorem tiles_tokens (s : State) (line : Text) : Tiles line.length 0 (tokens s line) := by
  have tiles := tiles_movesFrom s 0 line
  rwa [Nat.zero_add, ← tokens_eq] at tiles

/-- A token is the one that the line has where it stands. -/
theorem mem_movesFrom {line : Text} {s : State} {offset : Nat} {rest : Text} {move : Move}
    (hrest : rest = line.drop offset) (h : move ∈ movesFrom s offset rest) :
    ∃ c t, line.drop move.token.start = c :: t ∧
      move.token = (Lexeme.next move.before c t).token move.token.start := by
  fun_induction movesFrom s offset rest with
  | case1 => cases h
  | case2 s offset c t lexeme ih =>
    rcases List.mem_cons.mp h with rfl | later
    · exact ⟨c, t, hrest.symm, rfl⟩
    · refine ih ?_ later
      rw [hrest, List.drop_drop]

variable {s : State} {line : Text} {move : Move}

/-- A token without a meaning is a brace. -/
theorem text_of_other (h : move ∈ moves s line) (other : move.token.kind = .other) :
    move.token.text line = [Ascii.openBrace] ∨ move.token.text line = [Ascii.closeBrace] := by
  rw [moves_eq] at h
  obtain ⟨c, t, hline, htoken⟩ := mem_movesFrom rfl h
  have kind : (Lexeme.next move.before c t).kind = .other := by
    rw [htoken] at other
    exact other
  obtain ⟨brace, one⟩ := Lexeme.brace_of_next_kind kind
  have stop : move.token.stop = move.token.start + 1 := by
    rw [htoken]
    exact congrArg (move.token.start + ·) one
  have length : move.token.length = 1 := by
    rw [Token.length, stop, Nat.add_sub_cancel_left]
  have within : move.token.stop ≤ line.length := by
    have := congrArg List.length hline
    rw [List.length_drop, List.length_cons] at this
    omega
  rw [Token.text_eq_take (by omega) within, hline, length]
  rcases brace with rfl | rfl
  · exact .inl rfl
  · exact .inr rfl

/-- Where no rule but that for words applies, the token is a word. -/
theorem isWord_of_readsWord {c : UInt8} {t : Text} (h : move ∈ moves s line)
    (hline : line.drop move.token.start = c :: t) (reads : Lexeme.ReadsWord move.before c t) :
    move.token.kind.isWord = true := by
  rw [moves_eq] at h
  obtain ⟨d, u, hline', htoken⟩ := mem_movesFrom rfl h
  cases hline.symm.trans hline'
  have kind : move.token.kind = (Lexeme.next move.before c t).kind := by
    rw [htoken]
    rfl
  rw [kind, reads.next_eq]
  exact Lexeme.isWord_word ..

/-- **The tokens of a line tile it.** Whatever the line and the packed state, the tokens lie end to
end from the first byte to the last and none is empty, so their texts spell the line. A token
without a meaning is a brace: where no other rule applies, a word of at least one byte begins. -/
theorem tokens_tile_line (word : UInt32) (line : Text) :
    Tiles line.length 0 (tokens (.ofWord word) line) ∧
    (tokens (.ofWord word) line).flatMap (·.text line) = line ∧
    (tokens (.ofWord word) line = [] ↔ line = []) ∧
    (∀ token ∈ tokens (.ofWord word) line, token.kind = .other →
      token.text line = [Ascii.openBrace] ∨ token.text line = [Ascii.closeBrace]) ∧
    ∀ move ∈ moves (.ofWord word) line, ∀ c t, line.drop move.token.start = c :: t →
      Lexeme.ReadsWord move.before c t →
      0 < Lexeme.wordLength (c :: t) ∧ move.token.kind.isWord = true ∧
        move.token.start < (Scanner.mk line.toArray move.token.start move.before).skipWord.pos := by
  have tiles := tiles_tokens (.ofWord word) line
  refine ⟨tiles, tiles.flatMap_text, ?_, ?_, ?_⟩
  · constructor
    · intro none
      have spelled := tiles.flatMap_text
      rw [none] at spelled
      exact spelled.symm
    · intro empty
      rw [empty, tokens_eq, movesFrom]
      rfl
  · intro token member other
    obtain ⟨move, hmove, rfl⟩ := List.mem_map.mp member
    exact text_of_other hmove other
  · intro move hmove c t hline reads
    exact ⟨reads.wordLength_pos, isWord_of_readsWord hmove hline reads,
      reads.pos_lt_skipWord ⟨line.toArray, move.token.start, move.before⟩ hline⟩

/-- From a comment and a string at once, a state that no scan reaches, to a brace and a word that
ends in a backslash. -/
theorem tokens_tile_line_in_string_and_comment :
    Tiles 6 0 (tokens (.ofWord 0x60000) (utf8 "]]\"\x7da\\")) ∧
    (∃ token ∈ tokens (.ofWord 0x60000) (utf8 "]]\"\x7da\\"), token.kind = .other ∧
      (token.text (utf8 "]]\"\x7da\\") = [Ascii.openBrace] ∨
        token.text (utf8 "]]\"\x7da\\") = [Ascii.closeBrace])) ∧
    ∃ move ∈ moves (.ofWord 0x60000) (utf8 "]]\"\x7da\\"),
      Lexeme.ReadsWord move.before 0x61 [Ascii.backslash] ∧
        0 < Lexeme.wordLength [0x61, Ascii.backslash] ∧ move.token.kind.isWord = true ∧
        move.token.start < (Scanner.mk (utf8 "]]\"\x7da\\").toArray move.token.start
          move.before).skipWord.pos := by
  obtain ⟨tiles, _, _, others, words⟩ :=
    tokens_tile_line 0x60000 (utf8 "]]\"\x7da\\")
  refine ⟨tiles, ?_, ?_⟩
  · obtain ⟨token, member, other⟩ : ∃ token ∈ tokens (.ofWord 0x60000) (utf8 "]]\"\x7da\\"),
        token.kind = .other := by decide +kernel
    exact ⟨token, member, other, others token member other⟩
  · obtain ⟨move, member, hline, comment, string⟩ :
        ∃ move ∈ moves (.ofWord 0x60000) (utf8 "]]\"\x7da\\"),
          (utf8 "]]\"\x7da\\").drop move.token.start = [0x61, Ascii.backslash] ∧
            move.before.inComment = false ∧ move.before.inString = false := by decide +kernel
    have reads : Lexeme.ReadsWord move.before 0x61 [Ascii.backslash] :=
      ⟨comment, string, by decide, by decide, by decide, by decide +kernel⟩
    exact ⟨move, member, reads, words move member _ _ hline reads⟩

end Scan

end CMakeSense
