import CMakeSense.Proofs.Query.Typing
import CMakeSense.Proofs.Script.QuotedArgument
import CMakeSense.Proofs.Script.Spelling

/-! A call that is still being written. Its arguments stand on the last line of a script, each with
a space behind it, and the lines above leave nothing open. Every argument is one token and so is the
space behind it (`Scan.exists_moves_argument`), whatever a quoted argument holds, so the arguments
that are read are those that were written (`Script.EndsInCall.exists_moves`). At the last space the
strategy of the command is asked for what may follow them (`Script.EndsInCall.candidates?_eq`). -/

namespace CMakeSense

instance (bytes : Text) : Decidable (Lexeme.PlainWord bytes) :=
  decidable_of_iff ((!bytes.isEmpty && bytes.all Lexeme.isPlain) = true) <| by
    rw [Bool.and_eq_true, Bool.not_eq_true', List.isEmpty_eq_false_iff, List.all_eq_true]
    exact ⟨fun h => ⟨h.1, h.2⟩, fun h => ⟨h.nonempty, h.plain⟩⟩

/-- A plain word. -/
abbrev Word := { bytes : Text // Lexeme.PlainWord bytes }

/-- An argument as it is written: a plain word, or verbatim bytes between quotes. -/
inductive WrittenArgument where
  | word (bytes : Word)
  | quoted (bytes : Text) (verbatim : Lexeme.Verbatim bytes)

namespace WrittenArgument

/-- What the argument means. -/
def value : WrittenArgument → Text
  | word bytes => bytes.val
  | quoted bytes _ => bytes

/-- What stands in the script. -/
def spelling : WrittenArgument → Text
  | word bytes => bytes.val
  | quoted bytes _ => Ascii.quote :: bytes ++ [Ascii.quote]

theorem unquote_spelling (argument : WrittenArgument) :
    unquote argument.spelling = argument.value := by
  cases argument with
  | word word =>
    apply unquote_eq_self
    intro quote
    have member := List.mem_of_mem_head? quote
    exact absurd (word.property.plain _ member) (by decide)
  | quoted bytes _ => exact unquote_quoted bytes

/-- No argument begins with a blank. -/
theorem isSpace_head (argument : WrittenArgument) (rest : Text) :
    ∀ c ∈ (argument.spelling ++ rest).head?, Ascii.isSpace c = false := by
  intro c first
  cases argument with
  | word word =>
    obtain ⟨bytes, plain⟩ := word
    obtain ⟨d, t, rfl⟩ := List.exists_cons_of_ne_nil plain.nonempty
    cases first
    exact (Lexeme.isPlain_iff.mp (plain.plain _ List.mem_cons_self)).1
  | quoted bytes _ =>
    cases first
    rfl

end WrittenArgument

namespace Arguments

/-- A token of an argument and the separator behind it. -/
theorem add_add_separator (ended : List Text) {token blank : Step}
    (stop : token.closesList = false) (comment : token.token.kind ≠ .comment)
    (word : token.separates = false) (separates : blank.separates = true)
    (next : blank.line = token.line) :
    (add ⟨ended, none, token.line⟩ token).add blank =
      ⟨unquote token.tokenText :: ended, none, token.line⟩ := by
  have entered : enterLine ⟨ended, none, token.line⟩ token = ⟨ended, none, token.line⟩ := if_pos rfl
  have stays (bytes : Text) : enterLine (append ⟨ended, none, token.line⟩ bytes) blank =
      append ⟨ended, none, token.line⟩ bytes := if_pos next
  rw [add_eq_append stop comment word, entered, add_eq_flush (.inr separates), stays]
  simp [append, flush]

end Arguments

/-- No argument list, string or comment is open. A word may await its parenthesis. -/
structure State.Closed (s : State) : Prop where
  depth : s.depth.val = 0
  inString : s.inString = false
  inComment : s.inComment = false

instance (s : State) : Decidable s.Closed :=
  decidable_of_iff ((s.depth.val == 0 && !s.inString && !s.inComment) = true) <| by
    rw [Bool.and_eq_true, Bool.and_eq_true, beq_iff_eq, Bool.not_eq_true', Bool.not_eq_true']
    exact ⟨fun h => ⟨h.1.1, h.1.2, h.2⟩, fun h => ⟨⟨h.depth, h.inString⟩, h.inComment⟩⟩

theorem State.Closed.insideParens {s : State} (closed : s.Closed) : s.insideParens = false := by
  rw [State.insideParens, closed.depth]
  rfl

namespace Scan

open Statement

/-- The token of a blank that separates arguments. -/
def separator (s : State) (o : Nat) (rest : Text) : Move :=
  ⟨(Lexeme.blanks s rest).token o, rest, s, s⟩

section
variable {s : State} (inList : InList s) (plain : s.inString = false)
include inList plain

/-- A written argument is one token. -/
theorem exists_move_spelling (argument : WrittenArgument) {rest : Text} (ends : rest.BeginsBlank)
    (o : Nat) : ∃ move, movesFrom s o (argument.spelling ++ rest) =
      move :: movesFrom s (o + argument.spelling.length) rest ∧ move.before = s ∧
      move.tokenText = argument.spelling ∧ move.token.trigger = .none ∧
      (move.token.kind = .identifier ∨ move.token.kind = .stringLiteral) := by
  cases argument with
  | word word =>
    obtain ⟨bytes, word⟩ := word
    have inside : s.insideParens = true := by
      rw [State.insideParens, inList.depth]
      rfl
    have length : Lexeme.wordLength (bytes ++ rest) = bytes.length := by
      rw [Lexeme.wordLength_append word.plain, (Lexeme.endsWord_of_beginsBlank ends).word,
        Nat.add_zero]
    have lexeme : Lexeme.word s (bytes ++ rest) =
        { kind := .identifier, length := bytes.length, after := s } := by
      simp [Lexeme.word, inside, length]
    obtain ⟨c, t, rfl⟩ := List.exists_cons_of_ne_nil word.nonempty
    have next := Lexeme.next_of_isPlain (word.plain c List.mem_cons_self) inList.comment plain
      (t ++ rest)
    rw [← List.cons_append, lexeme] at next
    refine ⟨_, movesFrom_of_next (List.cons_append ..) next rfl o, rfl, ?_, rfl, .inl rfl⟩
    rw [Move.tokenText, Lexeme.length_token]
    exact List.take_left
  | quoted bytes verbatim =>
    have opens : Lexeme.stringHead s = [Ascii.quote] := by simp [Lexeme.stringHead, plain]
    have same : { s with inString := false } = s := by rw [← plain]
    have moves : movesFrom s o (Lexeme.stringHead s ++ bytes ++ [Ascii.quote] ++ rest) = _ :=
      movesFrom_string_closed inList.comment inList.settled verbatim o
    rw [opens, same] at moves
    refine ⟨_, moves, rfl, ?_, rfl, .inr rfl⟩
    rw [Move.tokenText, Lexeme.length_token]
    exact List.take_left

/-- A written argument and the space behind it, and what is read of them. -/
theorem exists_moves_argument (argument : WrittenArgument) {rest : Text}
    (next : ∀ c ∈ rest.head?, Ascii.isSpace c = false) (o : Nat) :
    ∃ move, movesFrom s o (argument.spelling ++ Ascii.space :: rest) =
      move :: separator s (o + argument.spelling.length) (Ascii.space :: rest) ::
        movesFrom s (o + argument.spelling.length + 1) rest ∧
      ∀ (n : Nat) (head : Head) (ended : List Text),
        (Reading.after (.within head ⟨ended, none, n⟩) (.ofMove n move)).after
          (.ofMove n (separator s (o + argument.spelling.length) (Ascii.space :: rest))) =
            .within head ⟨argument.value :: ended, none, n⟩ := by
  have blank : ∀ c ∈ [Ascii.space], Ascii.isSpace c = true := List.forall_mem_singleton.mpr rfl
  obtain ⟨move, moves, before, text, trigger, kind⟩ := exists_move_spelling inList plain argument
    (Text.beginsBlank_cons (t := rest) (blank _ List.mem_cons_self)) o
  have spaces := movesFrom_blanks inList.comment plain (List.cons_ne_nil _ _) blank next
    (o + argument.spelling.length)
  refine ⟨move, moves.trans (congrArg (move :: ·) spaces), ?_⟩
  intro n head ended
  let token := Step.ofMove n move
  let space := Step.ofMove n (separator s (o + argument.spelling.length) (Ascii.space :: rest))
  have stop : token.closesList = false :=
    (congrArg (Trigger.has · .parameterEnd) trigger).trans (Trigger.has_none _)
  have comment : token.token.kind ≠ .comment := by
    rcases kind with kind | kind <;> exact kind ▸ nofun
  have word : token.separates = false := by
    rcases kind with kind | kind <;> simp [token, Step.separates, Step.ofMove, kind]
  have separates : space.separates = true := Step.separates_iff.mpr ⟨rfl, inList.depth⟩
  have stays : space.closesList = false := by
    simp [space, Step.closesList, Step.ofMove, separator, Lexeme.token, Lexeme.blanks,
      inList.depth]
    rfl
  have added := Arguments.add_add_separator ended stop comment word separates rfl
  rw [show token.tokenText = _ from text, argument.unquote_spelling] at added
  rw [Reading.after_of_stays stop, Reading.after_of_stays stays]
  exact congrArg (Reading.within head) added

end

end Scan

namespace Script

open Statement

/-- The arguments, each with a space behind it. -/
def spaced (arguments : List WrittenArgument) : Text :=
  arguments.flatMap (·.spelling ++ [Ascii.space])

/-- A call up to the space behind its last argument. -/
def openCall (name : Text) (arguments : List WrittenArgument) : Text :=
  name ++ Ascii.openParen :: spaced arguments

theorem spaced_cons (argument : WrittenArgument) (arguments : List WrittenArgument) :
    spaced (argument :: arguments) = argument.spelling ++ Ascii.space :: spaced arguments := by
  rw [spaced, List.flatMap_cons, List.append_assoc]
  rfl

theorem openCall_concat (name : Text) (arguments : List WrittenArgument)
    (argument : WrittenArgument) :
    openCall name (arguments ++ [argument]) =
      openCall name arguments ++ argument.spelling ++ [Ascii.space] := by
  simp [openCall, spaced]

theorem isSpace_head_spaced (arguments : List WrittenArgument) {rest : Text}
    (next : ∀ c ∈ rest.head?, Ascii.isSpace c = false) :
    ∀ c ∈ (spaced arguments ++ rest).head?, Ascii.isSpace c = false := by
  cases arguments with
  | nil => exact next
  | cons argument arguments =>
    rw [spaced_cons, List.append_assoc]
    exact argument.isSpace_head _

/-- Written arguments, and what is read of them. -/
theorem exists_moves_spaced {s : State} (inList : InList s) (plain : s.inString = false)
    (arguments : List WrittenArgument) {rest : Text}
    (next : ∀ c ∈ rest.head?, Ascii.isSpace c = false) (o : Nat) :
    ∃ moves, Scan.movesFrom s o (spaced arguments ++ rest) =
        moves ++ Scan.movesFrom s (o + (spaced arguments).length) rest ∧
      ∀ (n : Nat) (head : Head) (ended : List Text),
        (moves.map (Step.ofMove n)).foldl Reading.after (.within head ⟨ended, none, n⟩) =
          .within head ⟨(arguments.map WrittenArgument.value).reverse ++ ended, none, n⟩ := by
  induction arguments generalizing o with
  | nil => exact ⟨[], rfl, fun _ _ _ => rfl⟩
  | cons argument arguments ih =>
    obtain ⟨move, first, read⟩ := Scan.exists_moves_argument inList plain argument
      (isSpace_head_spaced arguments next) o
    obtain ⟨moves, others, reads⟩ := ih (o + argument.spelling.length + 1)
    refine ⟨move :: Scan.separator s (o + argument.spelling.length)
      (Ascii.space :: (spaced arguments ++ rest)) :: moves, ?_, ?_⟩
    · rw [spaced_cons, List.append_assoc, List.cons_append, first, others, List.length_append,
        List.length_cons]
      simp only [List.cons_append, Nat.add_assoc, Nat.add_comm 1]
    · intro n head ended
      rw [List.map_cons, List.map_cons, List.foldl_cons, List.foldl_cons, read, reads]
      simp

/-- The head of a call behind a line that leaves nothing open, and what is read of it. -/
theorem exists_moves_head {s : State} (closed : s.Closed) {name : Text}
    (word : Lexeme.PlainWord name) (rest : Text) :
    ∃ t first second, Scan.moves s (name ++ Ascii.openParen :: rest) =
        first :: second :: Scan.movesFrom t (name.length + 1) rest ∧
      InList t ∧ t.inString = false ∧
      ∀ (n : Nat) (head? : Option Head),
        (Reading.after (.between head?) (.ofMove n first)).after (.ofMove n second) =
          .within ⟨Command.ofName? name, name, n⟩ (.start n) := by
  let named := (Lexeme.word s name).after
  have outside := closed.insideParens
  have comment : named.inComment = false := (Lexeme.inComment_word s name).trans closed.inComment
  have string : named.inString = false := (Lexeme.inString_word s name).trans closed.inString
  have awaits : named.insideParens = false ∧ named.awaitsParen = true := by
    simp only [named, Lexeme.word, outside]
    exact ⟨outside, rfl⟩
  have opens : Lexeme.openParen named =
      { kind := .openParen, length := 1, after := (named.withDepth 1).settled,
        trigger := .union .parameterStart .memberSelect } := by
    simp [Lexeme.openParen, awaits]
  have scan : Scan.movesFrom s 0 (name ++ Ascii.openParen :: rest) = _ :=
    Scan.movesFrom_word word closed.inComment closed.inString 0
  rw [← Scan.moves_eq, Scan.movesFrom_openParen comment string, opens, Nat.zero_add] at scan
  refine ⟨_, _, _, scan, ⟨rfl, rfl, comment⟩, string, fun n head? => ?_⟩
  rw [Reading.after_of_isWord (Lexeme.isWord_word s name), ofStep_word word outside]
  exact Reading.after_of_opens rfl Trigger.has_opening_parameterStart

/-- Above a line where nothing is open no argument list is being read. -/
theorem exists_foldl_after_of_closed {lines : List Text}
    (closed : (Walk.final (Walk.steps lines)).Closed) :
    ∃ head?, (Walk.steps lines).foldl Reading.after (.between none) = .between head? := by
  have fits := Reading.fits_start.run (Walk.run_steps lines)
  rw [← Walk.final_steps] at fits
  cases reading : (Walk.steps lines).foldl Reading.after (.between none) with
  | between head? => exact ⟨head?, rfl⟩
  | within head args =>
    rw [reading] at fits
    exact absurd closed.depth (Nat.ne_of_gt fits.1)

/-- The lines end with a call that is being written, and nothing is open above it. -/
structure EndsInCall (lines above : List Text) (name : Text) (arguments : List WrittenArgument) :
    Prop where
  lines : lines = above ++ [openCall name arguments]
  closed : (Walk.final (Walk.steps above)).Closed
  name : Lexeme.PlainWord name
  arguments : arguments ≠ []

/-- The request for the space at the end of the last line. -/
def lastSpace (above : List Text) (line : Text) : Request :=
  ⟨⟨above.length, (line.length - 1 : Nat)⟩, some .whiteSpace⟩

namespace EndsInCall

variable {lines above : List Text} {name : Text} {arguments : List WrittenArgument}
  (ends : EndsInCall lines above name arguments)
include ends

theorem line : lines[above.length]? = some (openCall name arguments) := by
  rw [ends.lines]
  exact List.getElem?_concat_length ..

theorem take : lines.take above.length = above := by
  rw [ends.lines, List.take_left]

theorem stateAt : Walk.stateAt lines above.length = Walk.final (Walk.steps above) := by
  rw [Walk.stateAt, ends.take, Walk.final_steps]

/-- The tokens of the call end with the space behind the last argument, and what is read up to it
are the arguments that were written. -/
theorem exists_moves : ∃ front move args,
    Scan.moves (Walk.stateAt lines above.length) (openCall name arguments) = front ++ [move] ∧
    move.token = ⟨.whiteSpace, (openCall name arguments).length - 1,
      (openCall name arguments).length, .union .parameterNext .memberSelect, none⟩ ∧
    readingAt lines above.length move.token.start =
      .within ⟨Command.ofName? name, name, above.length⟩ args ∧
    args.done = arguments.map WrittenArgument.value := by
  have closed := ends.closed
  rw [← ends.stateAt] at closed
  obtain ⟨front, last, rfl⟩ := (List.eq_nil_or_concat' arguments).resolve_left ends.arguments
  have nothing : ∀ c ∈ ([] : Text).head?, Ascii.isSpace c = false := nofun
  have text : spaced (front ++ [last]) = spaced front ++ (last.spelling ++ [Ascii.space]) := by
    simp [spaced]
  obtain ⟨t, first, second, head, inList, plain, begins⟩ :=
    exists_moves_head closed ends.name (spaced (front ++ [last]))
  obtain ⟨moves, middle, reads⟩ := exists_moves_spaced inList plain front
    (last.isSpace_head [Ascii.space]) (name.length + 1)
  obtain ⟨token, tail, read⟩ := Scan.exists_moves_argument inList plain last nothing
    (name.length + 1 + (spaced front).length)
  let move := Scan.separator t (name.length + 1 + (spaced front).length + last.spelling.length)
    [Ascii.space]
  have split : Scan.moves (Walk.stateAt lines above.length) (openCall name (front ++ [last])) =
      (first :: second :: moves ++ [token]) ++ [move] := by
    rw [openCall, head, text, middle, tail, Scan.movesFrom]
    simp [move]
  have length : (openCall name (front ++ [last])).length =
      name.length + 1 + (spaced front).length + last.spelling.length + 1 := by
    rw [openCall, text]
    simp only [List.length_append, List.length_cons, List.length_nil]
    omega
  obtain ⟨head?, outside⟩ := exists_foldl_after_of_closed ends.closed
  let values := (front ++ [last]).map WrittenArgument.value
  refine ⟨_, move, ⟨values.reverse, none, above.length⟩, split, ?_, ?_, values.reverse_reverse⟩
  · rw [length]
    simp only [move, Scan.separator, Lexeme.token, Lexeme.blanks, inList.depth]
    rfl
  · have start : Arguments.start above.length = ⟨[], none, above.length⟩ := rfl
    rw [Cursor.readingAt_of_split ends.line split, ends.take, outside, List.map_append,
      List.map_cons, List.map_cons, List.foldl_append, List.foldl_cons, List.foldl_cons, begins,
      start, reads]
    simpa [values] using read above.length _ _

/-- The cursor at the end of the line asks for what may follow the last argument. -/
theorem request?_eq :
    Cursor.request? lines ⟨above.length, (openCall name arguments).length⟩ =
      some (lastSpace above (openCall name arguments)) := by
  obtain ⟨front, move, _, split, token, _⟩ := ends.exists_moves
  have opens : Cursor.opensList move.token.kind = true := by
    rw [token]
    rfl
  have left : move.token.start < (openCall name arguments).length := by
    have nonempty : 0 < (openCall name arguments).length :=
      List.length_pos_of_mem (List.mem_append_right name List.mem_cons_self)
    rw [token]
    exact Nat.sub_one_lt_of_lt nonempty
  have right : ∀ other ∈ ([] : List Move), (openCall name arguments).length ≤ other.token.start :=
    fun other member => absurd member List.not_mem_nil
  rw [Cursor.request?_of_split ends.line split left right,
    Cursor.requestBehind?_of_opensList opens, Cursor.requestFor, token, lastSpace]

/-- At the space behind the last argument, the strategy of the command sees all arguments. -/
theorem candidates?_eq {source : Source} (tree : FileTree) (buffer : source.lines = lines) :
    Completion.candidates? tree source (lastSpace above (openCall name arguments)) =
      (Command.ofName? name).bind fun command => (Strategy.afterSpace? command).bind fun strategy =>
        strategy.run tree source command (arguments.map WrittenArgument.value) := by
  obtain ⟨front, move, args, split, token, reading, shown⟩ := ends.exists_moves
  have member : move ∈ Scan.moves (Walk.stateAt lines above.length) (openCall name arguments) := by
    rw [split]
    exact List.mem_append_right _ List.mem_cons_self
  have request : Cursor.requestFor above.length move.token =
      lastSpace above (openCall name arguments) := by
    rw [Cursor.requestFor, token, lastSpace]
  obtain ⟨found, _⟩ := Cursor.around_requestFor ends.line member
  have place : Context.around lines (Cursor.requestFor above.length move.token).position =
      Context.atLine lines above.length move.token.start :=
    Cursor.around_place ends.line move.token.start
  obtain ⟨prior, _, command, _⟩ := Context.atLine_of_within reading
  rw [← place] at prior command
  have blank : move.token.kind = .whiteSpace := by rw [token]
  have next : move.token.trigger.has .parameterNext = true := by
    have separates : (Trigger.union .parameterNext .memberSelect).has .parameterNext = true := rfl
    rw [token, separates]
  subst buffer
  rw [← request, Completion.candidates?_eq_inContext? rfl found (.inr blank),
    Completion.inContext?_of_separator blank next prior, command, shown]

end EndsInCall

end Script

end CMakeSense
