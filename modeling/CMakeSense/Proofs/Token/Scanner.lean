import CMakeSense.Proofs.Token.Lexeme

/-! A scanner reads by what is left of its line. Every loop of a scanner, with its look-ahead and
its searches, is described by a function of what is left and of the state, so that the token it
reads is the lexeme at the head of the rest (`Scanner.scanToken_eq`) and the line has the tokens of
its rests (`Scan.moves_eq`). A word is never empty there: the token of a single byte with which a
scanner would get past one is not read. -/

namespace CMakeSense

namespace Scanner

variable {s : Scanner} {c : UInt8} {t : Text}

theorem length_rest (s : Scanner) : s.rest.length = s.line.size - s.pos := by
  rw [rest, List.length_drop, Array.length_toList]

theorem rest_eq_nil (h : ¬s.pos < s.line.size) : s.rest = [] :=
  List.drop_eq_nil_of_le (by rw [Array.length_toList]; omega)

theorem lt_of_rest (h : s.rest = c :: t) : s.pos < s.line.size := by
  refine Decidable.byContradiction fun done => ?_
  rw [rest_eq_nil done] at h
  cases h

theorem peekN_eq (s : Scanner) (n : Nat) : s.peekN n = s.rest[n]?.getD 0 := by
  rw [peekN, rest, List.getElem?_drop, Array.getElem?_toList]

theorem peek_eq (h : s.rest = c :: t) : s.peek = c := by
  rw [peek, peekN_eq, h]
  rfl

theorem advance_eq (h : s.pos < s.line.size) : s.advance = { s with pos := s.pos + 1 } :=
  if_pos h

theorem rest_advance (h : s.rest = c :: t) : s.advance.rest = t := by
  rw [advance_eq (lt_of_rest h), rest, ← List.drop_drop, ← rest, h]
  rfl

theorem rest_eq_cons (h : s.pos < s.line.size) : s.rest = s.peek :: s.advance.rest := by
  cases bytes : s.rest with
  | nil =>
    have length := length_rest s
    rw [bytes] at length
    exact absurd length.symm (Nat.sub_ne_zero_of_lt h)
  | cons c t => rw [peek_eq bytes, rest_advance bytes]

/-- What a scanner has read when it stands behind a lexeme that begins at `start`. -/
def reads (s : Scanner) (start : Nat) (lexeme : Lexeme) : Token × Scanner :=
  (lexeme.token start, ⟨s.line, start + lexeme.length, lexeme.after⟩)

theorem hasPrefix_eq (s : Scanner) (p : Text) : s.hasPrefix p = p.isPrefixOf s.rest := by
  have bytes : (s.line.extract s.pos (s.pos + p.length)).toList = s.rest.take p.length := by
    rw [Array.toList_extract, List.extract_eq_take_drop, Nat.add_sub_cancel_left, rest]
  rw [Bool.eq_iff_iff, hasPrefix, decide_eq_true_iff, bytes, List.isPrefixOf_iff_prefix,
    List.prefix_iff_eq_take, eq_comm]

theorem variableStart_eq (s : Scanner) : s.variableStart = Lexeme.opener? s.rest := by
  simp only [variableStart, Lexeme.opener?, hasPrefix_eq]

theorem skipSpace_eq (s : Scanner) :
    s.skipSpace = { s with pos := s.pos + (s.rest.takeWhile Ascii.isSpace).length } := by
  fun_induction skipSpace s with
  | case1 s blank ih =>
    have more := lt_of_isSpace_peek blank
    rw [ih, rest_eq_cons more, List.takeWhile_cons_of_pos blank, advance_eq more,
      List.length_cons, Nat.add_right_comm, Nat.add_assoc]
  | case2 s ends =>
    cases bytes : s.rest with
    | nil => rfl
    | cons c t =>
      rw [peek_eq bytes] at ends
      rw [List.takeWhile_cons_of_neg ends]
      rfl

theorem scanWhiteSpace_eq (s : Scanner) :
    s.scanWhiteSpace s.pos = s.reads s.pos (Lexeme.blanks s.state s.rest) := by
  simp only [scanWhiteSpace, skipSpace_eq, reads, token, Lexeme.token, Lexeme.blanks]
  split <;> rfl

theorem scanBracketCommentBody_eq {start : Nat} (taken : Nat) (place : s.pos = start + taken)
    (within : s.pos ≤ s.line.size) :
    s.scanBracketCommentBody start = s.reads start (Lexeme.commentBody s.state taken s.rest) := by
  simp only [scanBracketCommentBody, Lexeme.commentBody]
  cases Text.indexOf? (Lexeme.commentCloser s.state.level) s.rest with
  | some i =>
    simp only [reads, token, Lexeme.token, place, Nat.add_assoc]
    rfl
  | none =>
    have stop : start + (taken + s.rest.length) = s.line.size := by
      rw [length_rest]
      omega
    simp only [reads, token, Lexeme.token, stop]

/-- The equals signs are those that follow in the rest. -/
theorem commentLevel_eq (s : Scanner) (level : Nat) :
    s.commentLevel level =
      level + ((s.rest.drop (1 + level)).takeWhile (· = Ascii.equals)).length := by
  fun_induction commentLevel s level with
  | case1 level sign ih =>
    have more : s.rest.drop (1 + level) = Ascii.equals :: s.rest.drop (1 + (level + 1)) := by
      have ahead : s.rest[1 + level]? = some Ascii.equals := by
        rw [peekN_eq] at sign
        cases bytes : s.rest[1 + level]? with
        | none =>
          rw [bytes] at sign
          cases sign
        | some d =>
          rw [bytes] at sign
          exact congrArg some sign
      obtain ⟨bound, here⟩ := List.getElem?_eq_some_iff.mp ahead
      rw [List.drop_eq_getElem_cons bound, here]
      rfl
    rw [ih, more, List.takeWhile_cons_of_pos (by rfl), List.length_cons]
    omega
  | case2 level ends =>
    cases bytes : s.rest.drop (1 + level) with
    | nil => rfl
    | cons d u =>
      have head : s.rest[1 + level]? = some d := by
        rw [← List.head?_drop, bytes]
        rfl
      rw [peekN_eq, head] at ends
      rw [List.takeWhile_cons_of_neg (by simpa using ends)]
      rfl

/-- A bracket comment opens where what is left says so, at the level that it says. -/
theorem commentLevel?_rest (s : Scanner) :
    Lexeme.commentLevel? s.rest =
      if s.peek = Ascii.openBracket ∧ s.peekN (1 + s.commentLevel 0) = Ascii.openBracket then
        some (s.commentLevel 0)
      else none := by
  cases bytes : s.rest with
  | nil =>
    have none : s.peek = 0 := by
      rw [peek, peekN_eq, bytes]
      rfl
    rw [none, if_neg (fun h => absurd h.1 (by decide))]
    rfl
  | cons c t =>
    have level : s.commentLevel 0 = (t.takeWhile (· = Ascii.equals)).length := by
      rw [commentLevel_eq, bytes, Nat.zero_add]
      rfl
    have ahead : s.peekN (1 + s.commentLevel 0) =
        (t.dropWhile (· = Ascii.equals)).head?.getD 0 := by
      have signs : t.takeWhile (· = Ascii.equals) ++ t.dropWhile (· = Ascii.equals) = t :=
        List.takeWhile_append_dropWhile
      have behind : t.drop (t.takeWhile (· = Ascii.equals)).length =
          t.dropWhile (· = Ascii.equals) :=
        (congrArg (List.drop _) signs).symm.trans List.drop_left
      rw [peekN_eq, bytes, level, Nat.add_comm, List.getElem?_cons_succ, ← List.head?_drop, behind]
    rw [peek_eq bytes, ahead, level, Lexeme.commentLevel?]
    by_cases bracket : c = Ascii.openBracket
    · rw [if_pos bracket]
      cases t.dropWhile (· = Ascii.equals) with
      | nil => rw [if_neg fun h => absurd h.2 (by decide)]
      | cons d u => simp only [bracket, List.head?_cons, Option.getD_some, true_and]
    · rw [if_neg bracket, if_neg fun h => bracket h.1]

theorem scanComment_eq (h : s.rest = c :: t) :
    s.scanComment s.pos = s.reads s.pos (Lexeme.comment s.state t) := by
  have more := lt_of_rest h
  have next := advance_eq more
  have place : s.advance.pos = s.pos + 1 := by rw [next]
  have line : s.advance.line = s.line := by rw [next]
  have state : s.advance.state = s.state := by rw [next]
  rw [scanComment, Lexeme.comment, ← rest_advance h, commentLevel?_rest]
  simp only [line, place, state]
  generalize s.advance.commentLevel 0 = level
  by_cases opened : s.advance.peek = Ascii.openBracket ∧
      s.advance.peekN (1 + level) = Ascii.openBracket
  · have ahead : s.advance.pos + (1 + level) < s.advance.line.size :=
      lt_of_peekN_ne (by rw [opened.2]; decide)
    rw [line, place] at ahead
    have body : s.advance.rest.drop (level + 2) = s.line.toList.drop (s.pos + 1 + (2 + level)) := by
      rw [rest, List.drop_drop, line, place, Nat.add_comm level]
    rw [if_pos opened, if_pos opened]
    simp only [body]
    refine scanBracketCommentBody_eq (level + 3) ?_ ?_
    · change s.pos + 1 + (2 + level) = s.pos + (level + 3)
      omega
    · change s.pos + 1 + (2 + level) ≤ s.line.size
      omega
  · have left : s.pos + (s.advance.rest.length + 1) = s.line.size := by
      rw [length_rest, line, place]
      omega
    rw [if_neg opened, if_neg opened]
    simp only [reads, token, Lexeme.token, left]

theorem advance_at_end (h : s.rest = []) : s.advance = s := by
  refine if_neg fun more => ?_
  rw [rest_eq_cons more] at h
  cases h

/-- The scanner behind a string, `n` bytes on. -/
def behindString (s : Scanner) (length : Nat × Bool) : Scanner :=
  ⟨s.line, s.pos + length.1, { s.state with inString := !length.2 }⟩

theorem scanStringBody_eq_behind (s : Scanner) (start : Nat) :
    s.scanStringBody start =
      ((s.behindString (Lexeme.stringLength s.rest)).token .stringLiteral start,
        s.behindString (Lexeme.stringLength s.rest)) := by
  fun_induction scanStringBody s start with
  | case1 s more escape ih =>
    have bytes := rest_eq_cons more
    rw [escape] at bytes
    cases behind : s.advance.rest with
    | nil =>
      rw [advance_at_end behind] at ih ⊢
      rw [ih, bytes, behind, advance_eq more]
      rfl
    | cons d u =>
      have twice : s.advance.advance = { s with pos := s.pos + 2 } := by
        rw [advance_eq (lt_of_rest behind), advance_eq more]
      have length : Lexeme.stringLength s.rest =
          ((Lexeme.stringLength u).1 + 2, (Lexeme.stringLength u).2) := by
        rw [bytes, behind]
        rfl
      rw [rest_advance behind] at ih
      rw [ih, length, twice]
      simp only [behindString, Nat.add_assoc, Nat.add_comm 2]
  | case2 s more _ quote next =>
    have length : Lexeme.stringLength s.rest = (1, true) := by
      rw [rest_eq_cons more, quote, Lexeme.stringLength.eq_def]
      rfl
    have behind : next = { s with pos := s.pos + 1 } := advance_eq more
    rw [length, behind]
    rfl
  | case3 s more backslash quote ih =>
    have length : Lexeme.stringLength s.rest =
        ((Lexeme.stringLength s.advance.rest).1 + 1, (Lexeme.stringLength s.advance.rest).2) := by
      rw [rest_eq_cons more, Lexeme.stringLength.eq_def]
      simp only [if_neg backslash, if_neg quote]
    rw [ih, length, advance_eq more]
    simp only [behindString, Nat.add_assoc, Nat.add_comm 1]
  | case4 s ends =>
    rw [rest_eq_nil ends]
    rfl

theorem scanStringBody_eq {start : Nat} (taken : Nat) (place : s.pos = start + taken) :
    s.scanStringBody start = s.reads start (Lexeme.stringBody s.state taken s.rest) := by
  rw [scanStringBody_eq_behind]
  simp only [behindString, reads, token, Lexeme.token, Lexeme.stringBody, place, Nat.add_assoc]

theorem scanOpenParen_eq (h : s.rest = c :: t) :
    s.scanOpenParen s.pos = s.reads s.pos (Lexeme.openParen s.state) := by
  simp only [scanOpenParen, advance_eq (lt_of_rest h), Lexeme.openParen, State.insideParens,
    decide_eq_true_eq]
  split
  · rfl
  split
  · rfl
  · rfl

theorem scanCloseParen_eq (h : s.rest = c :: t) :
    s.scanCloseParen s.pos = s.reads s.pos (Lexeme.closeParen s.state) := by
  simp only [scanCloseParen, advance_eq (lt_of_rest h), Lexeme.closeParen, State.insideParens,
    decide_eq_true_eq]
  split
  · split <;> rfl
  · rfl

/-- What the scanner does not take for a reference is none. -/
theorem opener?_eq_none_of_not (more : s.pos < s.line.size)
    (h : ¬(s.peek = Ascii.dollar ∧ s.variableStart.isSome = true)) :
    Lexeme.opener? s.rest = none := by
  by_cases dollar : s.peek = Ascii.dollar
  · rw [variableStart_eq, not_and, Bool.not_eq_true, Option.isSome_eq_false_iff,
      Option.isNone_iff_eq_none] at h
    exact h dollar
  · rw [rest_eq_cons more]
    exact Lexeme.opener?_eq_none dollar _

theorem skipWord_eq (s : Scanner) :
    s.skipWord = { s with pos := s.pos + Lexeme.wordLength s.rest } := by
  fun_induction skipWord s with
  | case1 s more ends =>
    rw [rest_eq_cons more, Lexeme.wordLength.eq_def]
    simp only [ends, Bool.true_or, if_true]
    rfl
  | case2 s more _ reference =>
    have opener : (Lexeme.opener? s.rest).isSome = true := variableStart_eq s ▸ reference.2
    rw [rest_eq_cons more] at opener ⊢
    rw [Lexeme.wordLength.eq_def]
    simp only [opener, Bool.or_true, if_true]
    rfl
  | case3 s more _ _ escape ih =>
    have bytes := rest_eq_cons more
    rw [escape] at bytes
    cases behind : s.advance.rest with
    | nil =>
      rw [advance_at_end behind] at ih ⊢
      rw [ih, bytes, behind, advance_eq more]
      rfl
    | cons d u =>
      have twice : s.advance.advance = { s with pos := s.pos + 2 } := by
        rw [advance_eq (lt_of_rest behind), advance_eq more]
      rw [rest_advance behind] at ih
      rw [ih, bytes, behind, Lexeme.wordLength_backslash, twice]
      simp only [Nat.add_assoc, Nat.add_comm 2]
  | case4 s more word reference plain ih =>
    have goes : Lexeme.wordLength (s.peek :: s.advance.rest) ≠ 0 := by
      have opener := opener?_eq_none_of_not more reference
      rw [rest_eq_cons more] at opener
      rw [ne_eq, Lexeme.wordLength_eq_zero_iff, opener, ← or_assoc, ← Bool.or_eq_true]
      exact not_or.mpr ⟨word, Bool.false_ne_true⟩
    rw [ih, rest_eq_cons more, Lexeme.wordLength_cons_of_goes goes plain, advance_eq more]
    simp only [Nat.add_assoc, Nat.add_comm 1]
  | case5 s ends =>
    rw [rest_eq_nil ends]
    rfl

theorem scanIdentifier_eq (goes : Lexeme.wordLength s.rest ≠ 0) :
    s.scanIdentifier s.pos = s.reads s.pos (Lexeme.word s.state s.rest) := by
  have text : ({ s with pos := s.pos + Lexeme.wordLength s.rest } : Scanner).textFrom s.pos =
      s.rest.take (Lexeme.wordLength s.rest) := by
    rw [textFrom, Array.toList_extract, List.extract_eq_take_drop, Nat.add_sub_cancel_left, rest]
  have nonempty : ¬s.pos + Lexeme.wordLength s.rest = s.pos := by omega
  simp only [scanIdentifier, skipWord_eq, if_neg nonempty, text, Lexeme.word]
  split
  · rfl
  · cases Command.ofName? (s.rest.take (Lexeme.wordLength s.rest)) <;> rfl

theorem ite_eq_reads {p : Prop} {_ : Decidable p} {a b : Token × Scanner} {start : Nat}
    {l r : Lexeme} (ha : p → a = s.reads start l) (hb : ¬p → b = s.reads start r) :
    (if p then a else b) = s.reads start (if p then l else r) := by
  split
  · exact ha ‹_›
  · exact hb ‹_›

/-- **A scanner reads the lexeme at the head of what is left.** -/
theorem scanToken_eq (h : s.rest = c :: t) :
    s.scanToken = s.reads s.pos (Lexeme.next s.state c t) := by
  have more := lt_of_rest h
  unfold scanToken Lexeme.next
  rw [peek_eq h]
  refine ite_eq_reads (fun _ => ?_) fun _ => ?_
  · rw [← h]
    exact scanBracketCommentBody_eq 0 rfl (Nat.le_of_lt more)
  refine ite_eq_reads (fun _ => ?_) fun _ => ?_
  · rw [← h]
    exact scanStringBody_eq 0 rfl
  refine ite_eq_reads (fun _ => scanComment_eq h) fun _ => ?_
  refine ite_eq_reads (fun _ => ?_) fun space => ?_
  · rw [← h]
    exact scanWhiteSpace_eq s
  refine ite_eq_reads (fun _ => ?_) fun quote => ?_
  · have quoted : ({ s with state := s.state.settled } : Scanner).rest = c :: t := h
    have next := advance_eq (lt_of_rest quoted)
    rw [← rest_advance quoted, scanStringBody_eq 1 (by rw [next]), next]
    rfl
  refine ite_eq_reads (fun _ => scanOpenParen_eq h) fun opening => ?_
  refine ite_eq_reads (fun _ => scanCloseParen_eq h) fun closing => ?_
  simp only [Bool.or_eq_true, decide_eq_true_eq]
  refine ite_eq_reads (fun _ => ?_) fun brace => ?_
  · rw [advance_eq more]
    rfl
  rw [variableStart_eq, h]
  cases opener : Lexeme.opener? (c :: t) with
  | some found =>
    have dollar : c = Ascii.dollar := by
      refine Decidable.byContradiction fun other => ?_
      rw [Lexeme.opener?_eq_none other] at opener
      cases opener
    rw [if_pos dollar]
    rfl
  | none =>
    have delimiter : Lexeme.isDelimiter c = false := by simp_all [Lexeme.isDelimiter]
    have goes : Lexeme.wordLength s.rest ≠ 0 := by
      rw [h]
      exact Nat.ne_of_gt (Lexeme.wordLength_pos (by simpa using space) delimiter opener)
    rw [ite_self, scanIdentifier_eq goes, h]

theorem next_eq (h : s.rest = c :: t) :
    s.next = some (s.reads s.pos (Lexeme.next s.state c t)) := by
  rw [next, if_pos (lt_of_rest h), scanToken_eq h]

/-- What is left of the line has the tokens that its rest has there. -/
theorem moves_eq {rest : Text} (left : s.rest = rest) :
    s.moves rest = Scan.movesFrom s.state s.pos rest := by
  fun_induction moves s rest with
  | case1 s rest done =>
    cases rest with
    | nil => rw [Scan.movesFrom]
    | cons c t =>
      rw [next_eq left] at done
      cases done
  | case2 s rest token t read ih =>
    cases rest with
    | nil =>
      have none : s.next = none := if_neg fun more => by
        rw [rest_eq_cons more] at left
        cases left
      rw [none] at read
      cases read
    | cons c u =>
      rw [next_eq left] at read
      cases read
      have length : ((Lexeme.next s.state c u).token s.pos).length =
          (Lexeme.next s.state c u).length := Nat.add_sub_cancel_left ..
      have behind : (s.line.toList.drop (s.pos + (Lexeme.next s.state c u).length)) =
          (c :: u).drop (Lexeme.next s.state c u).length := by
        rw [← left, Scanner.rest, List.drop_drop]
      rw [length] at ih ⊢
      rw [ih behind, Scan.movesFrom]

end Scanner

namespace Scan

/-- The tokens of a line are those of its rests. -/
theorem moves_eq (s : State) (line : Text) : moves s line = movesFrom s 0 line :=
  Scanner.moves_eq rfl

theorem tokens_eq (s : State) (line : Text) :
    tokens s line = (movesFrom s 0 line).map (·.token) := by
  rw [tokens, moves_eq]

theorem stateAfter_eq (s : State) (line : Text) :
    stateAfter s line = final s (movesFrom s 0 line) := by
  rw [stateAfter, moves_eq]

end Scan

end CMakeSense
