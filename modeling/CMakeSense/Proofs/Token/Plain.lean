import CMakeSense.Proofs.Token.Scanner

/-! Scanning texts that mean themselves. A plain word before a parenthesis is one token
(`Scan.movesFrom_word`), and the verbatim bytes of a string are one token up to the quote that
closes it (`Scan.movesFrom_string_closed`) or to the end of the line
(`Scan.movesFrom_string_open`), whether the string begins there or goes on from an earlier line. -/

namespace CMakeSense

namespace Lexeme

/-- The bytes that end no word and mean nothing else in one. -/
def isPlain (c : UInt8) : Bool :=
  !(Ascii.isSpace c || isDelimiter c || c = Ascii.hash || c = Ascii.dollar || c = Ascii.backslash)

structure PlainWord (word : Text) : Prop where
  nonempty : word ≠ []
  plain : ∀ c ∈ word, isPlain c = true

/-- Bytes that a string takes as they are. -/
def Verbatim (piece : Text) : Prop := ∀ c ∈ piece, c ≠ Ascii.quote ∧ c ≠ Ascii.backslash

instance (piece : Text) : Decidable (Verbatim piece) :=
  inferInstanceAs (Decidable (∀ c ∈ piece, c ≠ Ascii.quote ∧ c ≠ Ascii.backslash))

theorem isPlain_iff {c : UInt8} :
    isPlain c = true ↔ Ascii.isSpace c = false ∧ isDelimiter c = false ∧ c ≠ Ascii.hash ∧
      c ≠ Ascii.dollar ∧ c ≠ Ascii.backslash := by
  simp [isPlain, and_assoc]

theorem PlainWord.newline_notMem {word : Text} (h : PlainWord word) : Ascii.newline ∉ word := by
  intro member
  have plain := h.plain _ member
  have blank : isPlain Ascii.newline = false := by decide
  rw [blank] at plain
  cases plain

theorem wordLength_cons {c : UInt8} (h : isPlain c = true) (t : Text) :
    wordLength (c :: t) = wordLength t + 1 := by
  obtain ⟨space, delimiter, _, dollar, backslash⟩ := isPlain_iff.mp h
  rw [wordLength.eq_def]
  simp [space, delimiter, opener?_eq_none dollar, backslash]

/-- A plain word goes on with whatever word follows it. -/
theorem wordLength_append {word : Text} (h : ∀ c ∈ word, isPlain c = true) (rest : Text) :
    wordLength (word ++ rest) = word.length + wordLength rest := by
  induction word with
  | nil => simp
  | cons c word ih =>
    rw [List.cons_append, wordLength_cons (h c List.mem_cons_self),
      ih fun d hd => h d (List.mem_cons_of_mem c hd), List.length_cons]
    omega

theorem wordLength_plain {word : Text} (h : ∀ c ∈ word, isPlain c = true) :
    wordLength word = word.length := by
  simpa [wordLength] using wordLength_append h []

/-- A plain word ends at a parenthesis. -/
theorem word_openParen (s : State) {name : Text} (h : ∀ c ∈ name, isPlain c = true) (rest : Text) :
    word s (name ++ Ascii.openParen :: rest) = word s name := by
  have paren : wordLength (Ascii.openParen :: rest) = 0 := by
    rw [wordLength.eq_def]
    rfl
  have length : wordLength (name ++ Ascii.openParen :: rest) = name.length := by
    rw [wordLength_append h, paren, Nat.add_zero]
  simp [word, length, wordLength_plain h]

theorem word_length (s : State) {name : Text} (h : ∀ c ∈ name, isPlain c = true) :
    (word s name).length = name.length := by
  simp only [word, wordLength_plain h]
  split <;> rfl

theorem next_of_isPlain {s : State} {c : UInt8} (h : isPlain c = true)
    (comment : s.inComment = false) (string : s.inString = false) (t : Text) :
    next s c t = word s (c :: t) := by
  obtain ⟨space, delimiter, hash, dollar, _⟩ := isPlain_iff.mp h
  simp only [isDelimiter, Bool.or_eq_false_iff, decide_eq_false_iff_not] at delimiter
  simp [next, comment, string, hash, space, delimiter, opener?_eq_none dollar]

theorem next_openParen {s : State} (comment : s.inComment = false) (string : s.inString = false)
    (t : Text) : next s Ascii.openParen t = openParen s := by
  have classes : Ascii.openParen ≠ Ascii.hash ∧ Ascii.isSpace Ascii.openParen = false ∧
      Ascii.openParen ≠ Ascii.quote := by decide
  simp [next, comment, string, classes]

theorem next_closeParen {s : State} (comment : s.inComment = false) (string : s.inString = false)
    (t : Text) : next s Ascii.closeParen t = closeParen s := by
  have classes : Ascii.closeParen ≠ Ascii.hash ∧ Ascii.isSpace Ascii.closeParen = false ∧
      Ascii.closeParen ≠ Ascii.quote ∧ Ascii.closeParen ≠ Ascii.openParen := by decide
  simp [next, comment, string, classes]

theorem next_of_isSpace {s : State} {c : UInt8} (space : Ascii.isSpace c = true)
    (comment : s.inComment = false) (string : s.inString = false) (t : Text) :
    next s c t = blanks s (c :: t) := by
  have hash : c ≠ Ascii.hash := by
    rintro rfl
    cases space
  simp [next, comment, string, hash, space]

/-- An opener is a token of its own. -/
theorem next_of_opener {s : State} {c : UInt8} {t : Text} {kind : TokenKind} {n : Nat}
    (comment : s.inComment = false) (string : s.inString = false)
    (found : opener? (c :: t) = some (kind, n)) :
    next s c t = { kind, length := n, after := s.settled, trigger := .memberSelect } := by
  obtain rfl : c = Ascii.dollar := Decidable.byContradiction fun other => by
    rw [opener?_eq_none other] at found
    cases found
  have space : Ascii.isSpace Ascii.dollar = false := by decide
  simp only [next, comment, string, space, found]
  rfl

theorem stringLength_cons {c : UInt8} (quote : c ≠ Ascii.quote) (backslash : c ≠ Ascii.backslash)
    (t : Text) : stringLength (c :: t) = ((stringLength t).1 + 1, (stringLength t).2) := by
  rw [stringLength.eq_def]
  simp [quote, backslash]

/-- A string takes verbatim bytes along. -/
theorem stringLength_append {piece : Text} (h : Verbatim piece) (rest : Text) :
    stringLength (piece ++ rest) =
      (piece.length + (stringLength rest).1, (stringLength rest).2) := by
  induction piece with
  | nil => simp
  | cons c piece ih =>
    obtain ⟨quote, backslash⟩ := h c List.mem_cons_self
    rw [List.cons_append, stringLength_cons quote backslash,
      ih fun d hd => h d (List.mem_cons_of_mem c hd), List.length_cons]
    simp only [Prod.mk.injEq, and_true]
    omega

/-- How a string token begins: with its quote, or at once where the string goes on. -/
def stringHead (s : State) : Text := if s.inString then [] else [Ascii.quote]

/-- The token of a string that is `length` bytes long. -/
def string (s : State) (length : Nat) (closed : Bool) : Lexeme :=
  { kind := .stringLiteral, length, after := { s with inString := !closed } }

section String
variable {s : State} {c : UInt8} {t piece : Text}

theorem next_of_stringHead {body : Text} (comment : s.inComment = false)
    (settled : s.awaitsParen = false) (h : stringHead s ++ body = c :: t) :
    next s c t = stringBody s (stringHead s).length body := by
  cases inString : s.inString with
  | true =>
    have hbody : body = c :: t := by simpa [stringHead, inString] using h
    simp [next, stringHead, comment, inString, hbody]
  | false =>
    obtain ⟨rfl, rfl⟩ : Ascii.quote = c ∧ body = t := by simpa [stringHead, inString] using h
    have same : s.settled = s := by rw [State.settled, ← settled]
    have classes : Ascii.quote ≠ Ascii.hash ∧ Ascii.isSpace Ascii.quote = false := by decide
    simp [next, stringHead, comment, inString, same, classes]

theorem next_string_open (comment : s.inComment = false) (settled : s.awaitsParen = false)
    (verbatim : Verbatim piece) (h : stringHead s ++ piece = c :: t) :
    next s c t = string s (stringHead s ++ piece).length false := by
  have length : stringLength piece = (piece.length, false) := by
    simpa [stringLength] using stringLength_append verbatim []
  rw [next_of_stringHead comment settled h]
  simp [stringBody, string, length]

theorem next_string_closed {rest : Text} (comment : s.inComment = false)
    (settled : s.awaitsParen = false) (verbatim : Verbatim piece)
    (h : stringHead s ++ (piece ++ Ascii.quote :: rest) = c :: t) :
    next s c t = string s (stringHead s ++ piece ++ [Ascii.quote]).length true := by
  have quote : stringLength (Ascii.quote :: rest) = (1, true) := by
    rw [stringLength.eq_def]
    rfl
  rw [next_of_stringHead comment settled h]
  simp [stringBody, string, stringLength_append verbatim, quote]

end String

end Lexeme

namespace Scan

variable {s : State} {piece rest : Text}

/-- A token and what follows it. -/
theorem movesFrom_of_next {lexeme : Lexeme} {token : Text} {c : UInt8} {t : Text}
    (text : token ++ rest = c :: t) (next : Lexeme.next s c t = lexeme)
    (length : lexeme.length = token.length) (offset : Nat) :
    movesFrom s offset (token ++ rest) =
      ⟨lexeme.token offset, token ++ rest, s, lexeme.after⟩ ::
        movesFrom lexeme.after (offset + token.length) rest := by
  have drop : (c :: t).drop token.length = rest := by rw [← text, List.drop_left]
  rw [text, movesFrom, next, length, drop]

/-- A string that the line leaves open. -/
theorem movesFrom_string_open (comment : s.inComment = false) (settled : s.awaitsParen = false)
    (verbatim : Lexeme.Verbatim piece) (nonempty : Lexeme.stringHead s ++ piece ≠ [])
    (offset : Nat) :
    movesFrom s offset (Lexeme.stringHead s ++ piece) =
      [⟨(Lexeme.string s (Lexeme.stringHead s ++ piece).length false).token offset,
        Lexeme.stringHead s ++ piece, s, { s with inString := true }⟩] := by
  obtain ⟨c, t, text⟩ := List.exists_cons_of_ne_nil nonempty
  have next := Lexeme.next_string_open comment settled verbatim text
  have moves := movesFrom_of_next ((List.append_nil _).trans text) next rfl offset
  rw [List.append_nil] at moves
  rw [moves, movesFrom]
  rfl

/-- A string up to the quote that closes it. -/
theorem movesFrom_string_closed (comment : s.inComment = false) (settled : s.awaitsParen = false)
    (verbatim : Lexeme.Verbatim piece) (offset : Nat) :
    movesFrom s offset (Lexeme.stringHead s ++ piece ++ [Ascii.quote] ++ rest) =
      ⟨(Lexeme.string s (Lexeme.stringHead s ++ piece ++ [Ascii.quote]).length true).token offset,
        Lexeme.stringHead s ++ piece ++ [Ascii.quote] ++ rest, s, { s with inString := false }⟩ ::
      movesFrom { s with inString := false }
        (offset + (Lexeme.stringHead s ++ piece ++ [Ascii.quote]).length) rest := by
  obtain ⟨c, t, text⟩ := List.exists_cons_of_ne_nil
    (show Lexeme.stringHead s ++ piece ++ [Ascii.quote] ++ rest ≠ [] by simp)
  have body : Lexeme.stringHead s ++ (piece ++ Ascii.quote :: rest) = c :: t := by simpa using text
  exact movesFrom_of_next text (Lexeme.next_string_closed comment settled verbatim body) rfl offset

/-- A plain word before a parenthesis. -/
theorem movesFrom_word {name : Text} (word : Lexeme.PlainWord name) (comment : s.inComment = false)
    (string : s.inString = false) (offset : Nat) :
    movesFrom s offset (name ++ Ascii.openParen :: rest) =
      ⟨(Lexeme.word s name).token offset, name ++ Ascii.openParen :: rest, s,
        (Lexeme.word s name).after⟩ ::
      movesFrom (Lexeme.word s name).after (offset + name.length) (Ascii.openParen :: rest) := by
  obtain ⟨c, t, rfl⟩ := List.exists_cons_of_ne_nil word.nonempty
  refine movesFrom_of_next (List.cons_append ..) ?_ (Lexeme.word_length s word.plain) offset
  rw [Lexeme.next_of_isPlain (word.plain c List.mem_cons_self) comment string]
  exact Lexeme.word_openParen s word.plain rest

theorem movesFrom_openParen (comment : s.inComment = false) (string : s.inString = false)
    (offset : Nat) :
    movesFrom s offset (Ascii.openParen :: rest) =
      ⟨(Lexeme.openParen s).token offset, Ascii.openParen :: rest, s, (Lexeme.openParen s).after⟩ ::
      movesFrom (Lexeme.openParen s).after (offset + 1) rest := by
  have next := Lexeme.next_openParen comment string rest
  have text : [Ascii.openParen] ++ rest = Ascii.openParen :: rest := rfl
  exact movesFrom_of_next text next (Lexeme.openParen_length s) offset

theorem movesFrom_closeParen (comment : s.inComment = false) (string : s.inString = false)
    (offset : Nat) :
    movesFrom s offset (Ascii.closeParen :: rest) =
      ⟨(Lexeme.closeParen s).token offset, Ascii.closeParen :: rest, s,
        (Lexeme.closeParen s).after⟩ ::
      movesFrom (Lexeme.closeParen s).after (offset + 1) rest := by
  have next := Lexeme.next_closeParen comment string rest
  have text : [Ascii.closeParen] ++ rest = Ascii.closeParen :: rest := rfl
  exact movesFrom_of_next text next (Lexeme.closeParen_length s) offset

end Scan

end CMakeSense
