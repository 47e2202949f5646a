import CMakeSense.Token.Scan

/-! Scanning by what is left of a line. `Lexeme.next` classifies the token at the head of a rest of
a line that is not empty; it looks at nothing but the state and that rest, and always takes at least
one byte (`Lexeme.next_length_pos`). `Scan.movesFrom` repeats it to the end of the line. A scanner,
which has the whole line before it and a place in it, reads the same tokens (`Scan.moves_eq`). -/

namespace CMakeSense

/-- The token at the head of a rest of a line: its classification, its length in bytes and the
state after it. -/
structure Lexeme where
  kind : TokenKind
  length : Nat
  after : State
  trigger : Trigger := .none
  command : Option Command := none

namespace Lexeme

/-- The opener of a variable reference at the head of a text, with its length. -/
def opener? (t : Text) : Option (TokenKind × Nat) :=
  if (utf8 "$\x7b").isPrefixOf t then some (.variableStart, 2)
  else if (utf8 "$ENV\x7b").isPrefixOf t then some (.variableStartEnv, 5)
  else if (utf8 "$CACHE\x7b").isPrefixOf t then some (.variableStartCache, 7)
  else none

/-- The length of the word at the head of a text. A backslash takes the byte after it along. -/
def wordLength : Text → Nat
  | [] => 0
  | c :: t =>
    if Ascii.isSpace c || isDelimiter c || (opener? (c :: t)).isSome then 0
    else if c = Ascii.backslash then
      match t with
      | [] => 1
      | _ :: t => wordLength t + 2
    else wordLength t + 1

/-- The length of the rest of a quoted string with its closing quote, and whether there is one.
A backslash takes the byte after it along. -/
def stringLength : Text → Nat × Bool
  | [] => (0, false)
  | c :: t =>
    if c = Ascii.backslash then
      match t with
      | [] => (1, false)
      | _ :: t => ((stringLength t).1 + 2, (stringLength t).2)
    else if c = Ascii.quote then (1, true)
    else ((stringLength t).1 + 1, (stringLength t).2)

/-- The level of the bracket comment that opens with what follows its hash sign. -/
def commentLevel? : Text → Option Nat
  | [] => none
  | c :: t =>
    if c = Ascii.openBracket then
      match t.dropWhile (· = Ascii.equals) with
      | d :: _ =>
        if d = Ascii.openBracket then some (t.takeWhile (· = Ascii.equals)).length else none
      | [] => none
    else none

/-- The rest of an open string, of which `taken` bytes precede `rest`. -/
def stringBody (s : State) (taken : Nat) (rest : Text) : Lexeme :=
  let (length, closed) := stringLength rest
  { kind := .stringLiteral, length := taken + length, after := { s with inString := !closed } }

/-- The rest of an open bracket comment, of which `taken` bytes precede `rest`. -/
def commentBody (s : State) (taken : Nat) (rest : Text) : Lexeme :=
  let closer := commentCloser s.level
  match Text.indexOf? closer rest with
  | some i =>
    { kind := .comment, length := taken + i + closer.length,
      after := { s with inComment := false, level := ⟨0, by decide⟩ } }
  | none => { kind := .comment, length := taken + rest.length, after := s }

/-- A comment; `t` is what follows the hash sign. -/
def comment (s : State) (t : Text) : Lexeme :=
  match commentLevel? t with
  | some level =>
    commentBody ({ s with inComment := true }.withLevel level) (level + 3) (t.drop (level + 2))
  | none => { kind := .comment, length := t.length + 1, after := s }

/-- A run of blanks. Directly inside an argument list it separates two arguments. -/
def blanks (s : State) (rest : Text) : Lexeme where
  kind := .whiteSpace
  length := (rest.takeWhile Ascii.isSpace).length
  after := s
  trigger := if s.depth.val = 1 then .union .parameterNext .memberSelect else .none

/-- An opening parenthesis. After a word outside an argument list it opens one. -/
def openParen (s : State) : Lexeme :=
  if s.insideParens then { kind := .openParen, length := 1, after := s.withDepth (s.depth.val + 1) }
  else if s.awaitsParen then
    { kind := .openParen, length := 1, after := (s.withDepth 1).settled,
      trigger := .union .parameterStart .memberSelect }
  else { kind := .openParen, length := 1, after := s }

/-- A closing parenthesis. The last open one closes the argument list. -/
def closeParen (s : State) : Lexeme :=
  if s.insideParens then
    { kind := .closeParen, length := 1, after := s.withDepth (s.depth.val - 1),
      trigger := if s.depth.val = 1 then .parameterEnd else .none }
  else { kind := .closeParen, length := 1, after := s.settled }

/-- A word. Outside an argument list it names a command and awaits its parenthesis. -/
def word (s : State) (rest : Text) : Lexeme :=
  let length := wordLength rest
  if s.insideParens then { kind := .identifier, length, after := s }
  else
    let command := Command.ofName? (rest.take length)
    { kind := if command.isSome then .keyword else .identifier, length, command,
      after := { s.withCommand command with awaitsParen := true } }

/-- The token at the head of `c :: t`. -/
def next (s : State) (c : UInt8) (t : Text) : Lexeme :=
  if s.inComment then commentBody s 0 (c :: t)
  else if s.inString then stringBody s 0 (c :: t)
  else if c = Ascii.hash then comment s t
  else if Ascii.isSpace c then blanks s (c :: t)
  else if c = Ascii.quote then stringBody s.settled 1 t
  else if c = Ascii.openParen then openParen s
  else if c = Ascii.closeParen then closeParen s
  else if c = Ascii.openBrace || c = Ascii.closeBrace then
    { kind := .other, length := 1, after := s.settled }
  else match opener? (c :: t) with
    | some (kind, length) => { kind, length, after := s.settled, trigger := .memberSelect }
    | none => word s (c :: t)

/-- Only a dollar sign opens a reference. -/
theorem opener?_eq_none {c : UInt8} (h : c ≠ Ascii.dollar) (t : Text) :
    opener? (c :: t) = none := by
  have openers : utf8 "$\x7b" = [Ascii.dollar, Ascii.openBrace] ∧
      utf8 "$ENV\x7b" = Ascii.dollar :: utf8 "ENV\x7b" ∧
      utf8 "$CACHE\x7b" = Ascii.dollar :: utf8 "CACHE\x7b" := ⟨rfl, rfl, rfl⟩
  simp [opener?, openers, List.isPrefixOf, h.symm]

theorem opener?_length_pos {t : Text} {kind : TokenKind} {n : Nat}
    (h : opener? t = some (kind, n)) : 0 < n := by
  simp only [opener?] at h
  split at h
  · cases h
    decide
  split at h
  · cases h
    decide
  split at h
  · cases h
    decide
  · cases h

theorem stringLength_pos (c : UInt8) (t : Text) : 0 < (stringLength (c :: t)).1 := by
  unfold stringLength
  split
  · split <;> simp
  · split <;> simp

theorem commentBody_length_pos (s : State) (taken : Nat) (c : UInt8) (t : Text) :
    0 < (commentBody s taken (c :: t)).length := by
  simp only [commentBody]
  split
  · have closer : 0 < (commentCloser s.level).length := by simp [commentCloser]
    exact Nat.add_pos_right _ closer
  · exact Nat.add_pos_right _ (Nat.succ_pos _)

/-- A comment that has begun is not empty, whatever follows. -/
theorem commentBody_length_pos_of_begun (s : State) (taken : Nat) (t : Text) :
    0 < (commentBody s (taken + 1) t).length := by
  simp only [commentBody]
  split
  · exact Nat.add_pos_left (Nat.add_pos_left (Nat.succ_pos _) _) _
  · exact Nat.add_pos_left (Nat.succ_pos _) _

theorem wordLength_pos {c : UInt8} {t : Text} (hs : Ascii.isSpace c = false)
    (hd : isDelimiter c = false) (ho : opener? (c :: t) = none) : 0 < wordLength (c :: t) := by
  unfold wordLength
  simp only [hs, hd, ho]
  split
  · simp_all
  · split
    · split <;> simp
    · simp

/-- Nothing of a word stands at a blank, a delimiter or a reference, and only there. -/
theorem wordLength_eq_zero_iff {c : UInt8} {t : Text} : wordLength (c :: t) = 0 ↔
    Ascii.isSpace c = true ∨ isDelimiter c = true ∨ (opener? (c :: t)).isSome = true := by
  constructor
  · intro stops
    refine Decidable.byContradiction fun goes => ?_
    simp only [not_or, Bool.not_eq_true, Option.isSome_eq_false_iff, Option.isNone_iff_eq_none]
      at goes
    obtain ⟨space, delimiter, opener⟩ := goes
    exact Nat.ne_of_gt (wordLength_pos space delimiter opener) stops
  · intro ends
    rw [wordLength.eq_def]
    exact if_pos (by simpa [or_assoc] using ends)

theorem opener?_eq_none_of_goes {c : UInt8} {t : Text} (goes : wordLength (c :: t) ≠ 0) :
    opener? (c :: t) = none := by
  rw [ne_eq, wordLength_eq_zero_iff, not_or, not_or] at goes
  simpa using goes.2.2

theorem wordLength_cons_of_goes {c : UInt8} {t : Text} (goes : wordLength (c :: t) ≠ 0)
    (plain : c ≠ Ascii.backslash) : wordLength (c :: t) = wordLength t + 1 := by
  rw [ne_eq, wordLength_eq_zero_iff] at goes
  have goes : ¬(Ascii.isSpace c || isDelimiter c || (opener? (c :: t)).isSome) = true := by
    simpa [or_assoc] using goes
  rw [wordLength.eq_def]
  simp only [if_neg goes, if_neg plain]

theorem wordLength_backslash (d : UInt8) (t : Text) :
    wordLength (Ascii.backslash :: d :: t) = wordLength t + 2 := by
  have opener : opener? (Ascii.backslash :: d :: t) = none := opener?_eq_none (by decide) _
  have goes : ¬(Ascii.isSpace Ascii.backslash || isDelimiter Ascii.backslash ||
      (opener? (Ascii.backslash :: d :: t)).isSome) = true := by
    rw [opener]
    decide
  rw [wordLength.eq_def]
  simp only [if_neg goes, if_true]

@[simp] theorem openParen_length (s : State) : (openParen s).length = 1 := by
  simp only [openParen]
  split
  · rfl
  · split <;> rfl

@[simp] theorem closeParen_length (s : State) : (closeParen s).length = 1 := by
  simp only [closeParen]
  split <;> rfl

/-- A token has at least one byte. -/
theorem next_length_pos (s : State) (c : UInt8) (t : Text) : 0 < (next s c t).length := by
  unfold next
  split
  · exact commentBody_length_pos ..
  split
  · simpa [stringBody] using stringLength_pos c t
  split
  · simp only [comment]
    split
    · exact commentBody_length_pos_of_begun ..
    · exact Nat.succ_pos _
  split
  next hs => simp [blanks, hs]
  split
  · exact Nat.add_pos_left Nat.one_pos _
  split
  · simp
  split
  · simp
  split
  · simp
  split
  next h => exact opener?_length_pos h
  next hs hq ho hc hb _ hv =>
    have hd : isDelimiter c = false := by simp_all [isDelimiter]
    have := wordLength_pos (by simpa using hs) hd hv
    simp only [word]
    split <;> simpa

/-- The token itself, placed at an offset of its line. -/
def token (lexeme : Lexeme) (offset : Nat) : Token :=
  ⟨lexeme.kind, offset, offset + lexeme.length, lexeme.trigger, lexeme.command⟩

end Lexeme

namespace Scan

/-- The tokens of the rest of a line that starts at an offset, with the states around them. -/
def movesFrom (s : State) (offset : Nat) : Text → List Move
  | [] => []
  | c :: t =>
    let lexeme := Lexeme.next s c t
    ⟨lexeme.token offset, c :: t, s, lexeme.after⟩ ::
      movesFrom lexeme.after (offset + lexeme.length) ((c :: t).drop lexeme.length)
termination_by rest => rest.length
decreasing_by
  have := Lexeme.next_length_pos s c t
  simp only [List.length_drop, List.length_cons]
  omega

end Scan

end CMakeSense
