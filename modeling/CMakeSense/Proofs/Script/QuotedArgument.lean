import CMakeSense.Proofs.Script.Reading
import CMakeSense.Proofs.Text.Pieces
import CMakeSense.Proofs.Token.Plain

/-! A quoted argument over several lines. The lines of a call with one quoted argument are scanned
into a word, a parenthesis, one string token for every line that is not empty, and the parenthesis
that closes the list. A newline goes into the argument where a string token follows one of an
earlier line, so an empty line within the string leaves no trace: the argument is given back
verbatim exactly when no piece between its first and its last one is empty. -/

namespace CMakeSense

namespace Text

/-- Texts with an opening before the first and a closing behind the last. -/
def wrap (opening closing : Text) : Text → List Text → List Text
  | first, [] => [opening ++ first ++ closing]
  | first, next :: rest => (opening ++ first) :: wrap [] closing next rest

/-- Joined pieces between two texts, cut at the separators again. -/
theorem splitOn_join {c : UInt8} {opening closing first : Text} {rest : List Text}
    (hopening : c ∉ opening) (hclosing : c ∉ closing) (hfirst : c ∉ first)
    (hrest : ∀ piece ∈ rest, c ∉ piece) :
    splitOn c (opening ++ join [c] (first :: rest) ++ closing) =
      wrap opening closing first rest := by
  induction rest generalizing opening first with
  | nil =>
    rw [join, wrap]
    exact splitOn_of_notMem (by simp [hopening, hfirst, hclosing])
  | cons next rest ih =>
    have head : c ∉ opening ++ first := by simp [hopening, hfirst]
    have tail : splitOn c ([] ++ join [c] (next :: rest) ++ closing) = wrap [] closing next rest :=
      ih (List.not_mem_nil) (hrest next List.mem_cons_self)
        fun piece h => hrest piece (List.mem_cons_of_mem next h)
    rw [wrap, ← tail, ← splitOn_append_cons head]
    simp [join]

end Text

theorem unquote_quoted (body : Text) :
    unquote (Ascii.quote :: body ++ [Ascii.quote]) = body := by
  have last : (Ascii.quote :: body ++ [Ascii.quote]).getLast? = some Ascii.quote :=
    List.getLast?_concat ..
  rw [unquote, last]
  simp

namespace Arguments

variable {args : Arguments} {step : Step}

/-- The newline that a string keeps before a token on a line, if it comes from an earlier one. -/
def lineBreak (args : Arguments) (line : Nat) : Text :=
  if line = args.line then [] else [Ascii.newline]

def addString (args : Arguments) (line : Nat) (token : Text) : Arguments :=
  { args.append (args.lineBreak line ++ token) with line }

@[simp] theorem done_addString (line : Nat) (token : Text) :
    (args.addString line token).done = args.done := rfl

@[simp] theorem pending_addString (line : Nat) (token : Text) :
    (args.addString line token).pending =
      some (args.pending.getD [] ++ (args.lineBreak line ++ token)) :=
  args.pending_append _

theorem add_eq_addString (kind : step.token.kind = .stringLiteral)
    (stop : step.closesList = false) (joins : step.line = args.line ∨ step.before.inString = true) :
    args.add step = args.addString step.line step.tokenText := by
  rw [Step.closesList] at stop
  by_cases line : step.line = args.line
  · simp [add, addString, enterLine, lineBreak, append, stop, kind, line]
  · have string := joins.resolve_left line
    simp [add, addString, enterLine, lineBreak, append, stop, kind, line, string]

theorem done_add_of_closesList (stop : step.closesList = true) (line : step.line = args.line) :
    (args.add step).done = args.done ++ (args.pending.map unquote).toList := by
  rw [Step.closesList] at stop
  simp [add, enterLine, line, stop]

end Arguments

namespace Script

/-- The pieces that leave a trace in an argument, of those after the first one: all that are not
empty, and the last one. -/
def tracedPieces : List Text → List Text
  | [] => []
  | [last] => [last]
  | piece :: next :: rest =>
    if piece = [] then tracedPieces (next :: rest) else piece :: tracedPieces (next :: rest)

theorem tracedPieces_eq_self {rest : List Text} (h : ∀ piece ∈ rest.dropLast, piece ≠ []) :
    tracedPieces rest = rest := by
  fun_induction tracedPieces rest with
  | case1 => rfl
  | case2 last => rfl
  | case3 next rest ih => exact absurd rfl (h [] List.mem_cons_self)
  | case4 piece next rest _ ih =>
    rw [ih fun p hp => h p (List.mem_cons_of_mem _ hp)]

/-- Every empty piece that leaves no trace takes its newline along. -/
theorem length_tracedPieces (c : UInt8) (rest : List Text) :
    ((tracedPieces rest).flatMap (c :: ·)).length + rest.dropLast.count [] =
      (rest.flatMap (c :: ·)).length := by
  fun_induction tracedPieces rest with
  | case1 => rfl
  | case2 last => simp
  | case3 next rest ih =>
    rw [List.dropLast_cons_cons, List.count_cons_self, List.flatMap_cons, List.length_append, ← ih]
    exact (Nat.add_assoc ..).symm.trans (Nat.add_comm ..)
  | case4 piece next rest hpiece ih =>
    rw [List.dropLast_cons_cons, List.count_cons_of_ne hpiece, List.flatMap_cons, List.flatMap_cons,
      List.length_append, List.length_append, ← ih, Nat.add_assoc]

/-- Nothing is lost exactly when every piece before the last one leaves a trace. -/
theorem join_tracedPieces_iff (c : UInt8) (first : Text) (rest : List Text) :
    Text.join [c] (first :: tracedPieces rest) = Text.join [c] (first :: rest) ↔
      ∀ piece ∈ rest.dropLast, piece ≠ [] := by
  constructor
  · intro same piece member empty
    rw [Text.join_eq_flatMap, Text.join_eq_flatMap, List.append_cancel_left_eq] at same
    -- Without its newline the argument is too short.
    have lost := length_tracedPieces c rest
    have counted : 0 < rest.dropLast.count [] := List.count_pos_iff.mpr (empty ▸ member)
    rw [same] at lost
    omega
  · intro traced
    rw [tracedPieces_eq_self traced]

end Script

namespace Statement

/-- Inside one argument list, between tokens or in a string of it. -/
structure InList (s : State) : Prop where
  depth : s.depth.val = 1
  settled : s.awaitsParen = false
  comment : s.inComment = false

theorem InList.string {s : State} (h : InList s) : InList { s with inString := true } :=
  ⟨h.depth, h.settled, h.comment⟩

section List
variable {s after : State} {head : Head} {args : Arguments} {line : Nat} {piece text : Text}

theorem readFrom_string (joins : line = args.line ∨ s.inString = true) (length offset : Nat)
    (closed : Bool) (steps : List Step) :
    readFrom (.within head args) (Step.ofMove line
        ⟨(Lexeme.string s length closed).token offset, text, s, after⟩ :: steps) =
      readFrom (.within head (args.addString line (text.take length))) steps := by
  let step := Step.ofMove line ⟨(Lexeme.string s length closed).token offset, text, s, after⟩
  have stop : step.closesList = false := Trigger.has_none _
  have added : args.add step = args.addString line step.tokenText :=
    Arguments.add_eq_addString rfl stop joins
  rw [readFrom_cons, Reading.after_of_stays stop, added, Reading.completes?,
    if_neg (Bool.eq_false_iff.mp stop), Step.tokenText,
    show step.token.length = length from Lexeme.length_token ..]
  rfl

theorem readFrom_closeParen (depth : s.depth.val = 1) (same : line = args.line) (offset : Nat)
    (steps : List Step) :
    readFrom (.within head args) (Step.ofMove line
        ⟨(Lexeme.closeParen s).token offset, text, s, after⟩ :: steps) =
      head.statement (args.done ++ (args.pending.map unquote).toList) true ::
        readFrom (.between none) steps := by
  let step := Step.ofMove line ⟨(Lexeme.closeParen s).token offset, text, s, after⟩
  have stop : step.closesList = true := by
    simp [step, Step.closesList, Step.ofMove, Lexeme.token, Lexeme.closeParen, State.insideParens,
      depth]
  have ended := Arguments.done_add_of_closesList stop same
  rw [readFrom_cons, Reading.after_of_closes stop, Reading.completes?, if_pos stop, ended]
  rfl

/-- The rest of a line that closes a string and the argument list around it. -/
theorem readFrom_closing (inList : InList s) (verbatim : Lexeme.Verbatim piece)
    (htext : text = Lexeme.stringHead s ++ piece ++ [Ascii.quote])
    (joins : line = args.line ∨ s.inString = true) (offset : Nat) :
    readFrom (.within head args)
        ((Scan.movesFrom s offset (text ++ [Ascii.closeParen])).map (Step.ofMove line)) =
      [head.statement (args.done ++
        [unquote (args.pending.getD [] ++ (args.lineBreak line ++ text))]) true] := by
  let shut : State := { s with inString := false }
  have same : line = (args.addString line text).line := rfl
  subst htext
  rw [Scan.movesFrom_string_closed inList.comment inList.settled verbatim,
    Scan.movesFrom_closeParen (s := shut) inList.comment rfl, Scan.movesFrom, List.map_cons,
    List.map_cons, readFrom_string joins, List.take_left,
    readFrom_closeParen (s := shut) inList.depth same, Arguments.done_addString,
    Arguments.pending_addString]
  rfl

/-- The rest of a line that leaves a string open. -/
theorem readFrom_opening (inList : InList s) (verbatim : Lexeme.Verbatim piece)
    (htext : text = Lexeme.stringHead s ++ piece) (nonempty : text ≠ [])
    (joins : line = args.line ∨ s.inString = true) (offset : Nat) (steps : List Step) :
    readFrom (.within head args)
        ((Scan.movesFrom s offset text).map (Step.ofMove line) ++ steps) =
      readFrom (.within head (args.addString line text)) steps := by
  subst htext
  rw [Scan.movesFrom_string_open inList.comment inList.settled verbatim nonempty, List.map_cons,
    List.cons_append, readFrom_string joins, List.take_length]
  rfl

theorem final_opening (inList : InList s) (verbatim : Lexeme.Verbatim piece)
    (htext : text = Lexeme.stringHead s ++ piece) (nonempty : text ≠ []) (offset : Nat) :
    Scan.final s (Scan.movesFrom s offset text) = { s with inString := true } := by
  subst htext
  rw [Scan.movesFrom_string_open inList.comment inList.settled verbatim nonempty]
  rfl

/-- The lines of a string after its first one, up to the end of the argument list. -/
theorem readFrom_continued (inList : InList s) (string : s.inString = true) {rest : List Text}
    (verbatim : ∀ p ∈ piece :: rest, Lexeme.Verbatim p) (later : args.line < line) :
    readFrom (.within head args) (Walk.stepsFrom line s
        (Text.wrap [] [Ascii.quote, Ascii.closeParen] piece rest)) =
      [head.statement (args.done ++ [unquote (args.pending.getD [] ++
        (Script.tracedPieces (piece :: rest)).flatMap (Ascii.newline :: ·) ++ [Ascii.quote])])
        true] := by
  have begins : Lexeme.stringHead s = [] := if_pos string
  have same : { s with inString := true } = s := by rw [← string]
  induction rest generalizing args line piece with
  | nil =>
    have text : piece ++ [Ascii.quote] = Lexeme.stringHead s ++ piece ++ [Ascii.quote] := by
      simp [begins]
    have closing : [] ++ piece ++ [Ascii.quote, Ascii.closeParen] =
      piece ++ [Ascii.quote] ++ [Ascii.closeParen] := by simp
    rw [Text.wrap, closing, Walk.stepsFrom, Walk.stepsFrom, List.append_nil, Scan.moves_eq,
      readFrom_closing inList (verbatim piece List.mem_cons_self) text (.inr string)]
    simp [Script.tracedPieces, Arguments.lineBreak, Nat.ne_of_gt later]
  | cons next rest ih =>
    have verbatim_rest (p : Text) (h : p ∈ next :: rest) := verbatim p (List.mem_cons_of_mem _ h)
    rw [Text.wrap, List.nil_append, Walk.stepsFrom, Script.tracedPieces, Scan.stateAfter,
      Scan.moves_eq]
    by_cases empty : piece = []
    · -- No token tells the reader of this line: its newline merges with that of the next one.
      subst empty
      rw [Scan.movesFrom, if_pos rfl]
      exact ih verbatim_rest (Nat.lt_succ_of_lt later)
    · have text : piece = Lexeme.stringHead s ++ piece := by simp [begins]
      have piece_verbatim := verbatim piece List.mem_cons_self
      rw [readFrom_opening inList piece_verbatim text empty (.inr string),
        final_opening inList piece_verbatim text empty, same,
        ih verbatim_rest (Nat.lt_succ_self line), if_neg empty]
      simp [Arguments.lineBreak, Nat.ne_of_gt later]

end List

section First
variable {name : Text} (word : Lexeme.PlainWord name)

/-- The state inside the argument list of the first command of a script. -/
def openedState (name : Text) : State :=
  (Lexeme.openParen (Lexeme.word .start name).after).after

theorem inList_openedState (name : Text) : InList (openedState name) := ⟨rfl, rfl, rfl⟩

include word in
theorem ofStep_word {s : State} (outside : s.insideParens = false) (line : Nat) (rest : Text)
    (after : State) :
    Head.ofStep (Step.ofMove line ⟨(Lexeme.word s name).token 0, name ++ rest, s, after⟩) =
      ⟨Command.ofName? name, name, line⟩ := by
  let step := Step.ofMove line ⟨(Lexeme.word s name).token 0, name ++ rest, s, after⟩
  have command : (Lexeme.word s name).command = Command.ofName? name := by
    simp [Lexeme.word, outside, Lexeme.wordLength_plain word.plain]
  have length : step.token.length = name.length :=
    (Lexeme.length_token ..).trans (Lexeme.word_length s word.plain)
  have text : step.tokenText = name := by rw [Step.tokenText, length]; exact List.take_left
  show Head.mk (Lexeme.word s name).command step.tokenText line = _
  rw [command, text]

include word in
/-- A word and its parenthesis at the top of a script. -/
theorem readFrom_head (line : Nat) (rest : Text) (steps : List Step) :
    readFrom (.between none) ((Scan.movesFrom .start 0 (name ++ Ascii.openParen :: rest)).map
        (Step.ofMove line) ++ steps) =
      readFrom (.within ⟨Command.ofName? name, name, line⟩ (.start line))
        ((Scan.movesFrom (openedState name) (name.length + 1) rest).map (Step.ofMove line) ++
          steps) := by
  let named := (Lexeme.word .start name).after
  let paren := Step.ofMove line ⟨(Lexeme.openParen named).token (0 + name.length),
    Ascii.openParen :: rest, named, (Lexeme.openParen named).after⟩
  have kind : paren.token.kind = .openParen := rfl
  have start : paren.opensList = true := Trigger.has_opening_parameterStart
  rw [Scan.movesFrom_word word rfl rfl, Scan.movesFrom_openParen rfl rfl, List.map_cons,
    List.map_cons, List.cons_append, List.cons_append, readFrom_cons, readFrom_cons,
    Reading.after_of_isWord (Lexeme.isWord_word .start name), ofStep_word word rfl,
    Reading.after_of_opens kind start, Nat.zero_add]
  rfl

include word in
theorem final_head (rest : Text) :
    Scan.final .start (Scan.movesFrom .start 0 (name ++ Ascii.openParen :: rest)) =
      Scan.final (openedState name)
        (Scan.movesFrom (openedState name) (name.length + 1) rest) := by
  rw [Scan.movesFrom_word word rfl rfl, Scan.movesFrom_openParen rfl rfl, Nat.zero_add]
  rfl

end First

end Statement

namespace Script

/-- The lines of a call with one quoted argument, cut at the newlines. -/
def quotedCall (name argument : Text) : List Text :=
  Text.splitOn Ascii.newline
    (name ++ [Ascii.openParen, Ascii.quote] ++ argument ++ [Ascii.quote, Ascii.closeParen])

/-- The one statement of a call over lines. -/
theorem statements_wrap {name first : Text} {rest : List Text} (word : Lexeme.PlainWord name)
    (verbatim : ∀ piece ∈ first :: rest, Lexeme.Verbatim piece) :
    statements (Text.wrap (name ++ [Ascii.openParen, Ascii.quote])
        [Ascii.quote, Ascii.closeParen] first rest) =
      [⟨Command.ofName? name, name, 0,
        [Text.join [Ascii.newline] (first :: tracedPieces rest)], true⟩] := by
  have inList := Statement.inList_openedState name
  have first_verbatim := verbatim first List.mem_cons_self
  have same : 0 = (Arguments.start 0).line := rfl
  rw [statements, Walk.steps, Text.join_eq_flatMap]
  cases rest with
  | nil =>
    have text : name ++ [Ascii.openParen, Ascii.quote] ++ first ++
        [Ascii.quote, Ascii.closeParen] =
      name ++ Ascii.openParen :: (Ascii.quote :: first ++ [Ascii.quote] ++ [Ascii.closeParen]) := by
      simp
    have body : Ascii.quote :: first ++ [Ascii.quote] =
      Lexeme.stringHead (Statement.openedState name) ++ first ++ [Ascii.quote] := rfl
    rw [Text.wrap, text, Walk.stepsFrom, Walk.stepsFrom, Scan.moves_eq,
      Statement.readFrom_head word, List.append_nil,
      Statement.readFrom_closing inList first_verbatim body (.inl same)]
    have quoted := unquote_quoted first
    simpa [Statement.Head.statement, tracedPieces, Arguments.lineBreak, ← same] using quoted
  | cons next rest =>
    have text : name ++ [Ascii.openParen, Ascii.quote] ++ first =
        name ++ Ascii.openParen :: (Ascii.quote :: first) := by simp
    have body : Ascii.quote :: first =
      Lexeme.stringHead (Statement.openedState name) ++ first := rfl
    have nonempty : Ascii.quote :: first ≠ [] := List.cons_ne_nil _ _
    have verbatim_rest (p : Text) (h : p ∈ next :: rest) := verbatim p (List.mem_cons_of_mem _ h)
    have later : ((Arguments.start 0).addString 0 (Ascii.quote :: first)).line < 0 + 1 :=
      Nat.zero_lt_one
    rw [Text.wrap, text, Walk.stepsFrom, Scan.stateAfter, Scan.moves_eq,
      Statement.readFrom_head word, Statement.final_head word,
      Statement.readFrom_opening inList first_verbatim body nonempty (.inl same),
      Statement.final_opening inList first_verbatim body nonempty,
      Statement.readFrom_continued inList.string rfl verbatim_rest later]
    have quoted := unquote_quoted
      (first ++ (tracedPieces (next :: rest)).flatMap (Ascii.newline :: ·))
    simpa [Statement.Head.statement, Arguments.lineBreak, ← same] using quoted

/-- A call with a quoted argument of pieces on lines of their own is read as one closed statement,
and its argument is the one written exactly when no piece but the first and the last is empty. -/
theorem quoted_argument_verbatim_iff {name first : Text} {rest : List Text}
    (word : Lexeme.PlainWord name)
    (pieces : ∀ piece ∈ first :: rest, Lexeme.Verbatim piece ∧ Ascii.newline ∉ piece) :
    let argument := Text.join [Ascii.newline] (first :: rest)
    statements (quotedCall name argument) = [⟨Command.ofName? name, name, 0,
        [Text.join [Ascii.newline] (first :: tracedPieces rest)], true⟩] ∧
      ((∃ statement, statements (quotedCall name argument) = [statement] ∧
          statement.name = name ∧ statement.arguments = [argument] ∧ statement.closed = true) ↔
        ∀ piece ∈ rest.dropLast, piece ≠ []) := by
  intro argument
  have opening : Ascii.newline ∉ name ++ [Ascii.openParen, Ascii.quote] := by
    rw [List.mem_append, not_or]
    exact ⟨word.newline_notMem, by decide⟩
  have lines : quotedCall name argument = Text.wrap (name ++ [Ascii.openParen, Ascii.quote])
      [Ascii.quote, Ascii.closeParen] first rest :=
    Text.splitOn_join opening (by decide) (pieces first List.mem_cons_self).2
      fun piece h => (pieces piece (List.mem_cons_of_mem _ h)).2
  have read := statements_wrap word fun piece h => (pieces piece h).1
  rw [← lines] at read
  refine ⟨read, ?_⟩
  rw [read, ← join_tracedPieces_iff Ascii.newline first rest]
  constructor
  · rintro ⟨statement, one, -, arguments, -⟩
    obtain rfl := List.head_eq_of_cons_eq one
    exact List.head_eq_of_cons_eq arguments
  · intro same
    rw [same]
    exact ⟨_, rfl, rfl, rfl, rfl⟩

/-- An argument over three lines, with what would mean something outside of a string. -/
theorem quoted_argument_verbatim_over_three_lines :
    ∃ statement, statements (quotedCall (utf8 "f") (utf8 "a(\n #\n")) = [statement] ∧
      statement.name = utf8 "f" ∧ statement.arguments = [utf8 "a(\n #\n"] ∧
      statement.closed = true := by
  have word : Lexeme.PlainWord (utf8 "f") := ⟨by decide, by decide +kernel⟩
  have pieces : ∀ piece ∈ [utf8 "a(", utf8 " #", []],
      Lexeme.Verbatim piece ∧ Ascii.newline ∉ piece := by decide +kernel
  exact (quoted_argument_verbatim_iff word pieces).2.mpr (by decide)

/-- The newline of an empty line in the middle of an argument is lost. -/
theorem quoted_argument_not_verbatim :
    ¬ ∀ (name first : Text) (rest : List Text), Lexeme.PlainWord name →
      (∀ piece ∈ first :: rest, Lexeme.Verbatim piece ∧ Ascii.newline ∉ piece) →
      ∃ statement,
        statements (quotedCall name (Text.join [Ascii.newline] (first :: rest))) = [statement] ∧
          statement.name = name ∧
          statement.arguments = [Text.join [Ascii.newline] (first :: rest)] ∧
          statement.closed = true := by
  intro claimed
  have word : Lexeme.PlainWord (utf8 "f") := ⟨by decide, by decide +kernel⟩
  have pieces : ∀ piece ∈ [utf8 "a", [], utf8 "b"],
      Lexeme.Verbatim piece ∧ Ascii.newline ∉ piece := by decide +kernel
  obtain ⟨statement, one, -, arguments, -⟩ :=
    claimed (utf8 "f") (utf8 "a") [[], utf8 "b"] word pieces
  have read : (statements (quotedCall (utf8 "f") (utf8 "a\n\nb"))).map (·.arguments) =
      [[utf8 "a\nb"]] := by decide +kernel
  have written : (statements (quotedCall (utf8 "f") (utf8 "a\n\nb"))).map (·.arguments) =
      [[utf8 "a\n\nb"]] :=
    (congrArg (List.map (·.arguments)) one).trans (congrArg (fun a => [a]) arguments)
  exact absurd (read.symm.trans written) (by decide)

end Script

end CMakeSense
