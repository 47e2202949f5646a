import CMakeSense.Token.Basic
import CMakeSense.Token.State

/-! Scanning one line into tokens. A `Scanner` holds a line, a byte offset in it and the state, and
`Scanner.next` reads the token at the offset, looking ahead of it as far as it has to. Every token
leaves less of the line to read (`Scanner.left_lt_of_next`), so `Scanner.moves` comes to the end of
it. -/

namespace CMakeSense

namespace Lexeme

/-- The bytes that end a word besides blanks. -/
def isDelimiter (c : UInt8) : Bool :=
  c = Ascii.openParen || c = Ascii.closeParen || c = Ascii.quote || c = Ascii.openBrace ||
    c = Ascii.closeBrace

/-- The closing delimiter of a bracket comment. -/
def commentCloser (level : Nat) : Text :=
  Ascii.closeBracket :: List.replicate level Ascii.equals ++ [Ascii.closeBracket]

end Lexeme

/-- A line being read: the offset of the next byte, and the state after what has been read. The
line is an array for its bytes to be at hand by their offsets. -/
structure Scanner where
  line : Array UInt8
  pos : Nat
  state : State

namespace Scanner

/-- A scanner at the start of a line. -/
def new (line : Text) (state : State) : Scanner := ⟨line.toArray, 0, state⟩

/-- What the line still holds. -/
def rest (s : Scanner) : Text := s.line.toList.drop s.pos

/-- The number of bytes still to read. -/
def left (s : Scanner) : Nat := s.line.size - s.pos

/-- The byte `n` places ahead, and zero behind the end of the line. -/
def peekN (s : Scanner) (n : Nat) : UInt8 := s.line[s.pos + n]?.getD 0

/-- The next byte, and zero at the end of the line. -/
def peek (s : Scanner) : UInt8 := s.peekN 0

def advance (s : Scanner) : Scanner :=
  if s.pos < s.line.size then { s with pos := s.pos + 1 } else s

/-- The token from `start` up to where the scanner stands. -/
def token (s : Scanner) (kind : TokenKind) (start : Nat) : Token :=
  ⟨kind, start, s.pos, .none, none⟩

/-- What the line holds from `start` up to where the scanner stands. -/
def textFrom (s : Scanner) (start : Nat) : Text := (s.line.extract start s.pos).toList

/-- Whether what is left of the line begins with a text. -/
def hasPrefix (s : Scanner) (p : Text) : Bool :=
  (s.line.extract s.pos (s.pos + p.length)).toList = p

/-- The kind and the length of the opener of a variable reference that comes next. -/
def variableStart (s : Scanner) : Option (TokenKind × Nat) :=
  if s.hasPrefix (utf8 "$\x7b") then some (.variableStart, 2)
  else if s.hasPrefix (utf8 "$ENV\x7b") then some (.variableStartEnv, 5)
  else if s.hasPrefix (utf8 "$CACHE\x7b") then some (.variableStartCache, 7)
  else none

theorem length_pos_of_variableStart {s : Scanner} {kind : TokenKind} {n : Nat}
    (h : s.variableStart = some (kind, n)) : 0 < n := by
  simp only [variableStart] at h
  split at h
  · cases h
    decide
  split at h
  · cases h
    decide
  split at h
  · cases h
    decide
  · cases h

/-- A byte ahead that is not zero is a byte of the line. -/
theorem lt_of_peekN_ne {s : Scanner} {n : Nat} (h : s.peekN n ≠ 0) : s.pos + n < s.line.size := by
  refine Nat.lt_of_not_le fun beyond => h ?_
  rw [peekN, Array.getElem?_eq_none beyond, Option.getD_none]

theorem left_advance_lt {s : Scanner} (h : s.pos < s.line.size) : s.advance.left < s.left := by
  simp only [advance, left, if_pos h]
  omega

theorem left_advance_le (s : Scanner) : s.advance.left ≤ s.left := by
  simp only [advance, left]
  split
  · simp only
    omega
  · exact Nat.le_refl _

theorem lt_of_isSpace_peek {s : Scanner} (h : Ascii.isSpace s.peek = true) :
    s.pos < s.line.size := by
  refine lt_of_peekN_ne (n := 0) fun zero => ?_
  rw [peek, zero] at h
  cases h

/-- The scanner behind the blanks that come next. -/
def skipSpace (s : Scanner) : Scanner := if Ascii.isSpace s.peek then s.advance.skipSpace else s
termination_by s.left
decreasing_by exact left_advance_lt (lt_of_isSpace_peek ‹_›)

/-- A run of blanks. Directly inside an argument list it separates two arguments. -/
def scanWhiteSpace (s : Scanner) (start : Nat) : Token × Scanner :=
  let s := s.skipSpace
  let token := s.token .whiteSpace start
  (if s.state.depth.val = 1 then { token with trigger := .union .parameterNext .memberSelect }
    else token, s)

/-- The rest of a bracket comment, up to its closing delimiter or the end of the line. -/
def scanBracketCommentBody (s : Scanner) (start : Nat) : Token × Scanner :=
  let closing := Lexeme.commentCloser s.state.level
  let s := match Text.indexOf? closing s.rest with
    | some i =>
      { s with
        pos := s.pos + i + closing.length,
        state := { s.state with inComment := false }.withLevel 0 }
    | none => { s with pos := s.line.size }
  (s.token .comment start, s)

/-- The number of equals signs from the one after the next byte on, when `level` of them have been
counted. -/
def commentLevel (s : Scanner) (level : Nat) : Nat :=
  if s.peekN (1 + level) = Ascii.equals then s.commentLevel (level + 1) else level
termination_by s.left - level
decreasing_by
  have h : s.peekN (1 + level) = Ascii.equals := ‹_›
  have ahead : s.pos + (1 + level) < s.line.size := lt_of_peekN_ne (by rw [h]; decide)
  rw [left]
  omega

/-- A comment. With an opening bracket after its hash sign it may go on below the line. -/
def scanComment (s : Scanner) (start : Nat) : Token × Scanner :=
  let s := s.advance
  let level := s.commentLevel 0
  if s.peek = Ascii.openBracket ∧ s.peekN (1 + level) = Ascii.openBracket then
    { s with
      pos := s.pos + (2 + level),
      state := { s.state with inComment := true }.withLevel level }.scanBracketCommentBody start
  else
    let s := { s with pos := s.line.size }
    (s.token .comment start, s)

/-- The rest of a quoted string with its closing quote. A string without one stays open at the end
of the line. -/
def scanStringBody (s : Scanner) (start : Nat) : Token × Scanner :=
  if s.pos < s.line.size then
    if s.peek = Ascii.backslash then s.advance.advance.scanStringBody start
    else if s.peek = Ascii.quote then
      let s := s.advance
      (s.token .stringLiteral start, { s with state := { s.state with inString := false } })
    else s.advance.scanStringBody start
  else (s.token .stringLiteral start, { s with state := { s.state with inString := true } })
termination_by s.left
decreasing_by
  · exact Nat.lt_of_le_of_lt (left_advance_le _) (left_advance_lt ‹_›)
  · exact left_advance_lt ‹_›

/-- An opening parenthesis. After a word outside an argument list it opens one. -/
def scanOpenParen (s : Scanner) (start : Nat) : Token × Scanner :=
  let s := s.advance
  let token := s.token .openParen start
  let depth := s.state.depth.val
  if 0 < depth then (token, { s with state := s.state.withDepth (depth + 1) })
  else if s.state.awaitsParen then
    ({ token with trigger := .union .parameterStart .memberSelect },
      { s with state := (s.state.withDepth 1).settled })
  else (token, s)

/-- A closing parenthesis. The last open one closes the argument list. -/
def scanCloseParen (s : Scanner) (start : Nat) : Token × Scanner :=
  let s := s.advance
  let token := s.token .closeParen start
  let depth := s.state.depth.val
  if 0 < depth then
    (if depth = 1 then { token with trigger := .parameterEnd } else token,
      { s with state := s.state.withDepth (depth - 1) })
  else (token, { s with state := s.state.settled })

/-- The scanner behind the word that comes next. A backslash takes the byte after it along. -/
def skipWord (s : Scanner) : Scanner :=
  if s.pos < s.line.size then
    if Ascii.isSpace s.peek || Lexeme.isDelimiter s.peek then s
    else if s.peek = Ascii.dollar ∧ s.variableStart.isSome then s
    else if s.peek = Ascii.backslash then s.advance.advance.skipWord
    else s.advance.skipWord
  else s
termination_by s.left
decreasing_by
  · exact Nat.lt_of_le_of_lt (left_advance_le _) (left_advance_lt ‹_›)
  · exact left_advance_lt ‹_›

/-- A word. Outside an argument list it names a command and awaits its parenthesis. A byte that
begins nothing would make a token of its own. -/
def scanIdentifier (s : Scanner) (start : Nat) : Token × Scanner :=
  let s := s.skipWord
  if s.pos = start then
    let s := s.advance
    (s.token .other start, s)
  else
    let token := s.token .identifier start
    if s.state.insideParens then (token, s)
    else
      let command := Command.ofName? (s.textFrom start)
      let token := if command.isSome then { token with kind := .keyword, command } else token
      (token, { s with state := { s.state.withCommand command with awaitsParen := true } })

/-- The token that begins with the next byte, and the scanner behind it. -/
def scanToken (s : Scanner) : Token × Scanner :=
  if s.state.inComment then s.scanBracketCommentBody s.pos
  else if s.state.inString then s.scanStringBody s.pos
  else if s.peek = Ascii.hash then s.scanComment s.pos
  else if Ascii.isSpace s.peek then s.scanWhiteSpace s.pos
  else if s.peek = Ascii.quote then
    { s with state := s.state.settled }.advance.scanStringBody s.pos
  else if s.peek = Ascii.openParen then s.scanOpenParen s.pos
  else if s.peek = Ascii.closeParen then s.scanCloseParen s.pos
  else if s.peek = Ascii.openBrace ∨ s.peek = Ascii.closeBrace then
    (s.advance.token .other s.pos, { s.advance with state := s.state.settled })
  else if s.peek = Ascii.dollar then
    match s.variableStart with
    | some (kind, n) =>
      let t := { s with pos := s.pos + n, state := s.state.settled }
      ({ t.token kind s.pos with trigger := .memberSelect }, t)
    | none => s.scanIdentifier s.pos
  else s.scanIdentifier s.pos

/-- The next token of the line, and the scanner behind it. -/
def next (s : Scanner) : Option (Token × Scanner) :=
  if s.pos < s.line.size then some s.scanToken else none

/-- The second scanner reads the same line, and stands no further to the left. -/
structure Onward (s t : Scanner) : Prop where
  line : t.line = s.line
  pos : s.pos ≤ t.pos

namespace Onward

variable {s t u : Scanner}

theorem refl (s : Scanner) : s.Onward s := ⟨rfl, Nat.le_refl _⟩

theorem trans (h : s.Onward t) (h' : t.Onward u) : s.Onward u :=
  ⟨h'.line.trans h.line, Nat.le_trans h.pos h'.pos⟩

theorem advance (s : Scanner) : s.Onward s.advance := by
  rw [Scanner.advance]
  split
  · exact ⟨rfl, Nat.le_succ _⟩
  · exact refl s

theorem skipSpace (s : Scanner) : s.Onward s.skipSpace := by
  fun_induction Scanner.skipSpace s with
  | case1 s _ ih => exact (advance s).trans ih
  | case2 => exact refl _

theorem skipWord (s : Scanner) : s.Onward s.skipWord := by
  fun_induction Scanner.skipWord s with
  | case1 | case2 | case5 => exact refl _
  | case3 s _ _ _ _ ih => exact ((advance s).trans (advance _)).trans ih
  | case4 s _ _ _ _ ih => exact (advance s).trans ih

theorem scanStringBody (s : Scanner) (start : Nat) : s.Onward (s.scanStringBody start).2 := by
  fun_induction Scanner.scanStringBody s start with
  | case1 s _ _ ih => exact ((advance s).trans (advance _)).trans ih
  | case2 s => exact ⟨(advance s).line, (advance s).pos⟩
  | case3 s _ _ _ ih => exact (advance s).trans ih
  | case4 => exact ⟨rfl, Nat.le_refl _⟩

theorem scanBracketCommentBody (s : Scanner) (start : Nat) (h : s.pos ≤ s.line.size) :
    s.Onward (s.scanBracketCommentBody start).2 := by
  simp only [Scanner.scanBracketCommentBody]
  split
  · exact ⟨rfl, Nat.le_trans (Nat.le_add_right _ _) (Nat.le_add_right _ _)⟩
  · exact ⟨rfl, h⟩

end Onward

/-- The second scanner reads the same line, further to the right. -/
structure Past (s t : Scanner) : Prop where
  line : t.line = s.line
  pos : s.pos < t.pos

namespace Past

variable {s t : Scanner}

/-- Where there is a byte to pass, whatever reads on from behind it is past the scanner. -/
theorem of_advance (h : s.pos < s.line.size) (onward : s.advance.Onward t) : s.Past t := by
  have step : s.advance.pos = s.pos + 1 := by rw [advance, if_pos h]
  exact ⟨onward.line.trans (Onward.advance s).line, by have := onward.pos; omega⟩

theorem ite {p : Prop} {_ : Decidable p} {a b : Token × Scanner} (ha : p → s.Past a.2)
    (hb : ¬p → s.Past b.2) : s.Past (if p then a else b).2 := by
  split
  · exact ha ‹_›
  · exact hb ‹_›

theorem scanWhiteSpace (start : Nat) (h : Ascii.isSpace s.peek = true) :
    s.Past (s.scanWhiteSpace start).2 := by
  rw [Scanner.scanWhiteSpace, skipSpace, if_pos h]
  exact of_advance (lt_of_isSpace_peek h) (Onward.skipSpace _)

theorem scanBracketCommentBody (start : Nat) (h : s.pos < s.line.size) :
    s.Past (s.scanBracketCommentBody start).2 := by
  have closing : 0 < (Lexeme.commentCloser s.state.level).length := Nat.succ_pos _
  simp only [Scanner.scanBracketCommentBody]
  split
  · exact ⟨rfl, Nat.lt_of_le_of_lt (Nat.le_add_right _ _) (Nat.lt_add_of_pos_right closing)⟩
  · exact ⟨rfl, h⟩

theorem scanComment (start : Nat) (h : s.pos < s.line.size) :
    s.Past (s.scanComment start).2 := by
  have line := (Onward.advance s).line
  simp only [Scanner.scanComment]
  split
  · next opened =>
    have ahead : s.advance.pos + (1 + s.advance.commentLevel 0) < s.advance.line.size :=
      lt_of_peekN_ne (by rw [opened.2]; decide)
    refine of_advance h (.trans ?_ (Onward.scanBracketCommentBody _ _ ?_))
    · exact ⟨rfl, Nat.le_add_right _ _⟩
    · simp only
      omega
  · refine ⟨line, ?_⟩
    rw [line]
    exact h

theorem scanStringBody (start : Nat) (h : s.pos < s.line.size) :
    s.Past (s.scanStringBody start).2 := by
  rw [Scanner.scanStringBody, if_pos h]
  split
  · exact of_advance h ((Onward.advance _).trans (Onward.scanStringBody _ _))
  split
  · exact of_advance h ⟨rfl, Nat.le_refl _⟩
  · exact of_advance h (Onward.scanStringBody _ _)

theorem scanOpenParen (start : Nat) (h : s.pos < s.line.size) :
    s.Past (s.scanOpenParen start).2 := by
  refine of_advance h ?_
  simp only [Scanner.scanOpenParen]
  split
  · exact ⟨rfl, Nat.le_refl _⟩
  split
  · exact ⟨rfl, Nat.le_refl _⟩
  · exact .refl _

theorem scanCloseParen (start : Nat) (h : s.pos < s.line.size) :
    s.Past (s.scanCloseParen start).2 := by
  refine of_advance h ?_
  simp only [Scanner.scanCloseParen]
  split
  · exact ⟨rfl, Nat.le_refl _⟩
  · exact ⟨rfl, Nat.le_refl _⟩

/-- The word itself may be empty; what follows sees to it that the token is not. -/
theorem scanIdentifier (h : s.pos < s.line.size) : s.Past (s.scanIdentifier s.pos).2 := by
  have word := Onward.skipWord s
  simp only [Scanner.scanIdentifier]
  split
  · next empty =>
    have here : s.skipWord.pos < s.skipWord.line.size := by rw [word.line, empty]; exact h
    have past := of_advance here (.refl _)
    exact ⟨past.line.trans word.line, by rw [← empty]; exact past.pos⟩
  · next nonempty =>
    have past : s.Past s.skipWord :=
      ⟨word.line, Nat.lt_of_le_of_ne word.pos (Ne.symm nonempty)⟩
    split
    · exact past
    · exact ⟨past.line, past.pos⟩

/-- A token takes at least one byte of the line. -/
theorem scanToken (h : s.pos < s.line.size) : s.Past s.scanToken.2 := by
  unfold Scanner.scanToken
  refine ite (fun _ => scanBracketCommentBody _ h) fun _ => ?_
  refine ite (fun _ => scanStringBody _ h) fun _ => ?_
  refine ite (fun _ => scanComment _ h) fun _ => ?_
  refine ite (scanWhiteSpace _) fun _ => ?_
  refine ite (fun _ => ?_) fun _ => ?_
  · have past := of_advance (s := { s with state := s.state.settled }) h
      (Onward.scanStringBody _ s.pos)
    exact ⟨past.line, past.pos⟩
  refine ite (fun _ => scanOpenParen _ h) fun _ => ?_
  refine ite (fun _ => scanCloseParen _ h) fun _ => ?_
  refine ite (fun _ => of_advance h ⟨rfl, Nat.le_refl _⟩) fun _ => ?_
  refine ite (fun _ => ?_) fun _ => scanIdentifier h
  split
  · next opener => exact ⟨rfl, Nat.lt_add_of_pos_right (length_pos_of_variableStart opener)⟩
  · exact scanIdentifier h

end Past

theorem left_lt_of_next {s : Scanner} {read : Token × Scanner} (h : s.next = some read) :
    read.2.left < s.left := by
  rw [next] at h
  split at h
  · next more =>
    cases h
    have past := Past.scanToken more
    rw [left, left, past.line]
    exact Nat.sub_lt_sub_left more past.pos
  · cases h

end Scanner

/-- A token with the states around it. -/
structure Move where
  token : Token
  /-- What the line holds from the token on. -/
  rest : Text
  before : State
  after : State
  deriving DecidableEq, Repr

/-- The bytes of the token. -/
def Move.tokenText (move : Move) : Text := move.rest.take move.token.length

/-- The tokens that are left of the line, with the states around them. `rest` is what is left. -/
def Scanner.moves (s : Scanner) (rest : Text) : List Move :=
  match _ : s.next with
  | none => []
  | some (token, t) => ⟨token, rest, s.state, t.state⟩ :: t.moves (rest.drop token.length)
termination_by s.left
decreasing_by exact left_lt_of_next ‹_›

namespace Scan

/-- The tokens of a line scanned from a state, with the states around them. -/
def moves (s : State) (line : Text) : List Move := (Scanner.new line s).moves line

/-- The state after some moves that start in `s`. -/
def final (s : State) (moves : List Move) : State := moves.foldl (fun _ move => move.after) s

/-- The tokens of a line scanned from a state. -/
def tokens (s : State) (line : Text) : List Token := (moves s line).map (·.token)

/-- The state that a line leaves to the next one. -/
def stateAfter (s : State) (line : Text) : State := final s (moves s line)

end Scan

end CMakeSense
