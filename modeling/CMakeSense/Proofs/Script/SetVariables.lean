import CMakeSense.Proofs.Script.Recasing
import CMakeSense.Proofs.Script.Spelling
import CMakeSense.Proofs.Text.Distinct
import CMakeSense.Script.Lines

/-! Variables against the arguments of `set`. The variables of a script are found by looking at
three tokens, a `set`, its parenthesis and a word (`Script.SetWord`), while the arguments of a
statement are put together from any number of tokens. The word is always a beginning of the first
argument of the statement (`Script.SetWord.exists_statement`), but it is the whole of it only where
its line goes on with what ends an argument (`Step.EndsArgument`). -/

namespace CMakeSense

namespace Arguments

/-- The first argument, which is being read or has ended, begins with `p`. -/
def BeginWith (p : Text) (args : Arguments) : Prop :=
  args.done = [] ∧ (∃ q, args.pending = some (p ++ q)) ∨
    ∃ q, args.done.head? = some (unquote (p ++ q))

variable {args : Arguments} {p : Text}

theorem head?_done_of_isPrefix {other : Arguments} {first : Text}
    (h : args.done.head? = some first) (extends_ : args.done <+: other.done) :
    other.done.head? = some first := by
  obtain ⟨more, more_eq⟩ := extends_
  rw [← more_eq, List.head?_append, h]
  rfl

theorem BeginWith.flush (h : args.BeginWith p) : args.flush.BeginWith p := by
  rcases h with ⟨done, q, pending⟩ | ⟨q, first⟩
  · refine .inr ⟨q, ?_⟩
    rw [done_flush, done, pending]
    rfl
  · exact .inr ⟨q, head?_done_of_isPrefix first args.done_isPrefix_flush⟩

theorem BeginWith.append (h : args.BeginWith p) (bytes : Text) :
    (args.append bytes).BeginWith p := by
  rcases h with ⟨done, q, pending⟩ | ended
  · refine .inl ⟨done, q ++ bytes, ?_⟩
    rw [pending_append, pending, Option.getD_some, List.append_assoc]
  · exact .inr ended

theorem BeginWith.enterLine (h : args.BeginWith p) (step : Step) :
    (args.enterLine step).BeginWith p := by
  unfold Arguments.enterLine
  split
  · exact h
  split
  · exact h.append [Ascii.newline]
  · exact h.flush

/-- One more token leaves the beginning of the first argument as it is. -/
theorem BeginWith.add (h : args.BeginWith p) (step : Step) : (args.add step).BeginWith p := by
  have entered := h.enterLine step
  rcases args.add_cases step with added | added | added
  · exact added ▸ entered.flush
  · exact added ▸ entered
  · exact added ▸ entered.append step.tokenText

/-- Where no argument is being read, the first one has ended. -/
theorem BeginWith.ended (h : args.BeginWith p) (none : args.pending = none) :
    ∃ q, args.done.head? = some (unquote (p ++ q)) := by
  rcases h with ⟨_, _, pending⟩ | ended
  · rw [none] at pending
    cases pending
  · exact ended

variable {step : Step} (line : step.line = args.line)
include line

/-- A token on the same line that ends the argument before it. -/
theorem add_of_ends (ends : step.closesList = true ∨
      step.token.kind = .whiteSpace ∧ step.before.depth.val = 1) : args.add step = args.flush := by
  rw [add_eq_flush (ends.imp_right Step.separates_iff.mpr), enterLine, if_pos line]

/-- A token on the same line that goes on with the argument before it. -/
theorem add_of_goesOn (stop : step.closesList = false) (blank : step.token.kind ≠ .whiteSpace)
    (comment : step.token.kind ≠ .comment) : args.add step = args.append step.tokenText := by
  have separates : step.separates = false := by simp [Step.separates, blank]
  rw [add_eq_append stop comment separates, enterLine, if_pos line]

end Arguments

namespace Statement

/-- The statement that is being read has the first argument that has begun. -/
theorem exists_argument_of_beginWith {args : Arguments} {p : Text} (begins : args.BeginWith p)
    (head : Head) (steps : List Step) : ∃ arguments closed rest q,
      readFrom (.within head args) steps = head.statement arguments closed :: rest ∧
      arguments.head? = some (unquote (p ++ q)) := by
  induction steps generalizing args with
  | nil =>
    obtain ⟨q, first⟩ := begins.flush.ended args.pending_flush
    exact ⟨_, false, [], q, rfl, first⟩
  | cons step steps ih =>
    have added := begins.add step
    rw [readFrom_cons]
    cases stop : step.closesList with
    | true =>
      obtain ⟨q, first⟩ := added.ended (args.pending_add_of_closesList stop)
      refine ⟨_, true, readFrom (.between none) steps, q, ?_, first⟩
      simp [Reading.completes?, Reading.after, stop]
    | false =>
      obtain ⟨arguments, closed, rest, q, read, first⟩ := ih added
      refine ⟨arguments, closed, rest, q, ?_, first⟩
      simp [Reading.completes?, Reading.after, stop, read]

end Statement

namespace Step

/-- What the line holds behind the token ends an argument: nothing, a blank or the parenthesis that
closes the list. -/
def EndsArgument (step : Step) : Prop :=
  ∀ c ∈ step.following.head?, Ascii.isSpace c = true ∨ c = Ascii.closeParen

instance (step : Step) : Decidable step.EndsArgument :=
  match h : step.following.head? with
  | none => .isTrue (by simp [EndsArgument, h])
  | some c => decidable_of_iff (Ascii.isSpace c = true ∨ c = Ascii.closeParen)
      (by simp [EndsArgument, h])

/-- A word inside an argument list changes nothing but the argument. -/
theorem Scanned.inside_word {step : Step} (h : step.Scanned)
    (isWord : step.token.kind.isWord = true) (inside : 0 < step.before.depth.val) :
    step.after = step.before ∧ step.before.inComment = false ∧ step.before.inString = false ∧
      step.tokenText.head? ≠ some Ascii.quote ∧ step.tokenText ≠ [] ∧
      Lexeme.wordLength step.following = 0 := by
  obtain ⟨_, c, t, rest, next⟩ := h
  have reads : Lexeme.ReadsWord step.before c t := by
    refine Lexeme.readsWord_of_isWord ?_
    rw [← next]
    exact isWord
  rw [reads.next_eq] at next
  have inside : step.before.insideParens = true := (State.insideParens_iff _).mpr inside
  have after : step.after = step.before := by
    have := congrArg Lexeme.after next
    simpa [lexeme, Lexeme.word, inside] using this
  have length : step.token.length = Lexeme.wordLength (c :: t) := by
    have := congrArg Lexeme.length next
    rwa [Lexeme.word_length_eq] at this
  have text : step.tokenText = (c :: t).take (Lexeme.wordLength (c :: t)) := by
    rw [tokenText, rest, length]
  obtain ⟨n, positive⟩ := Nat.exists_eq_add_of_lt reads.wordLength_pos
  rw [positive, Nat.zero_add, List.take_succ_cons] at text
  refine ⟨after, reads.comment, reads.string, ?_, ?_, ?_⟩
  · rw [text]
    rintro ⟨⟩
    exact absurd reads.delimiter (by decide)
  · rw [text]
    exact List.cons_ne_nil _ _
  · rw [following, rest, length]
    exact Lexeme.wordLength_drop _

end Step

namespace Lexeme

variable {s : State} {c : UInt8} {t : Text} (comment : s.inComment = false)
  (string : s.inString = false) (inner : s.depth.val = 1)
include comment string inner

/-- Directly inside an argument list a blank and a closing parenthesis end an argument. -/
theorem next_of_ends (ends : Ascii.isSpace c = true ∨ c = Ascii.closeParen) :
    (next s c t).trigger.has .parameterEnd = true ∨ (next s c t).kind = .whiteSpace := by
  rcases ends with space | rfl
  · rw [next_of_isSpace space comment string]
    exact .inr rfl
  · have inside : s.insideParens = true := by simp [inner]
    rw [next_closeParen comment string, closeParen, if_pos inside, inner]
    exact .inl Trigger.has_parameterEnd_self

/-- Anything else behind a word goes on with its argument. -/
theorem next_of_goesOn (behind : wordLength (c :: t) = 0)
    (goes : ¬(Ascii.isSpace c = true ∨ c = Ascii.closeParen)) :
    (next s c t).trigger.has .parameterEnd = false ∧ (next s c t).kind ≠ .whiteSpace ∧
      (next s c t).kind ≠ .comment := by
  rw [not_or] at goes
  have inside : s.insideParens = true := by simp [inner]
  rcases wordLength_eq_zero_iff.mp behind with space | delimiter | found
  · exact absurd space goes.1
  · simp only [isDelimiter, Bool.or_eq_true, decide_eq_true_eq, or_assoc] at delimiter
    rcases delimiter with rfl | closing | rfl | brace
    · rw [next_openParen comment string, openParen, if_pos inside]
      exact ⟨Trigger.has_none _, by simp, by simp⟩
    · exact absurd closing goes.2
    · have next : next s Ascii.quote t = stringBody s.settled 1 t := by
        have classes : Ascii.quote ≠ Ascii.hash ∧ Ascii.isSpace Ascii.quote = false := by decide
        simp [next, comment, string, classes]
      rw [next]
      exact ⟨Trigger.has_none _, by simp [stringBody], by simp [stringBody]⟩
    · have next : next s c t = { kind := .other, length := 1, after := s.settled } := by
        have classes : ∀ c, c = Ascii.openBrace ∨ c = Ascii.closeBrace → c ≠ Ascii.hash ∧
            Ascii.isSpace c = false ∧ c ≠ Ascii.quote ∧ c ≠ Ascii.openParen ∧
            c ≠ Ascii.closeParen := by
          rintro c (rfl | rfl) <;> decide
        simp [next, comment, string, classes c brace, brace]
      rw [next]
      exact ⟨Trigger.has_none _, by simp, by simp⟩
  · obtain ⟨⟨kind, n⟩, found⟩ := Option.isSome_iff_exists.mp found
    obtain ⟨_, blank, other⟩ := opener?_kind found
    rw [next_of_opener comment string found]
    exact ⟨Trigger.has_memberSelect_parameterEnd, blank, other⟩

end Lexeme

namespace Walk

variable {lines : List Text} {front rest : List Step} {step : Step}
  (split : steps lines = front ++ step :: rest)
include split

/-- The steps behind one of them are those of the rest of its line and of the lines below. -/
theorem exists_stepsAt_behind :
    ∃ column below, rest = stepsAt step.line step.after column step.following below := by
  obtain ⟨_, _, _, _, _, here⟩ := eq_stepsAt_of_split split
  obtain ⟨_, ⟨_, c, t, bytes, next⟩, _⟩ := run_of_steps_eq split
  rw [bytes, stepsAt_cons next.symm, ← bytes] at here
  obtain ⟨_, behind⟩ := List.cons.inj here
  exact ⟨_, _, behind⟩

theorem before_eq_after {next : Step} (h : next ∈ rest.head?) : next.before = step.after := by
  obtain ⟨_, _, _, behind⟩ := run_of_steps_eq split
  cases rest with
  | nil => cases h
  | cons other rest =>
    cases h
    exact behind.of_cons.1.symm

/-- Behind the last token of a line the steps go on further down. -/
theorem line_lt_of_following_eq_nil (last : step.following = []) {next : Step}
    (h : next ∈ rest.head?) : step.line < next.line := by
  obtain ⟨column, below, behind⟩ := exists_stepsAt_behind split
  rw [last, stepsAt_nil] at behind
  rw [behind] at h
  exact (line_of_mem_stepsFrom (List.mem_of_head? h)).1

/-- Where a line goes on behind a token, the next token stands there. -/
theorem exists_next_of_following {c : UInt8} {t : Text} (goes : step.following = c :: t) :
    ∃ next later, rest = next :: later ∧ next.line = step.line ∧ next.rest = c :: t ∧
      next.lexeme = Lexeme.next step.after c t := by
  obtain ⟨column, below, behind⟩ := exists_stepsAt_behind split
  rw [goes, stepsAt_cons rfl] at behind
  exact ⟨_, _, behind, rfl, rfl, Step.lexeme_ofMove ..⟩

end Walk

namespace Script

open Statement

/-- Steps around a `set`, its parenthesis and the word behind it. -/
structure SetSplit (steps front : List Step) (set opening word : Step) (rest : List Step) :
    Prop where
  split : steps = front ++ set :: opening :: word :: rest
  set : isSet set = true
  paren : opening.token.kind = .openParen
  word : word.token.kind = .identifier

/-- The word directly follows the parenthesis of statement `k`, which directly follows a `set`. -/
def SetWord (lines : List Text) (k : Nat) (word : Step) : Prop :=
  ∃ front set opening rest, SetSplit (Walk.steps lines) front set opening word rest ∧
    front.countP Step.opensList = k

/-- What the last of some steps are in a phase of reading a `set`. -/
def SetPhase.Matches : SetPhase → List Step → Prop
  | .idle, _ => True
  | .named, seen => ∃ front set, seen = front ++ [set] ∧ isSet set = true
  | .opened, seen => ∃ front set opening, seen = front ++ [set, opening] ∧ isSet set = true ∧
      opening.token.kind = .openParen

/-- The names that `set` gives are words directly behind its parenthesis. -/
theorem exists_split_of_mem_setNames {phase : SetPhase} {seen steps : List Step} {name : Text}
    (matches_ : phase.Matches seen) (h : name ∈ setNames phase steps) :
    ∃ front set opening word rest, SetSplit (seen ++ steps) front set opening word rest ∧
      word.tokenText = name := by
  induction steps generalizing phase seen with
  | nil => cases h
  | cons step steps ih =>
    have idle := ih (show SetPhase.idle.Matches (seen ++ [step]) from trivial)
    rw [List.append_cons]
    rw [setNames.eq_def] at h
    simp only at h
    split at h
    · next set => exact ih (show SetPhase.named.Matches _ from ⟨seen, step, rfl, set⟩) h
    cases phase with
    | idle => exact idle h
    | named =>
      obtain ⟨front, set, rfl, isSet⟩ := matches_
      simp only at h
      split at h
      · next paren =>
        have opened : SetPhase.opened.Matches (front ++ [set] ++ [step]) :=
          ⟨front, set, step, List.append_assoc .., isSet, paren⟩
        exact ih opened h
      · exact idle h
    | opened =>
      obtain ⟨front, set, opening, rfl, isSet, paren⟩ := matches_
      simp only at h
      split at h
      · next identifier =>
        split at h
        · exact idle h
        rcases List.mem_cons.mp h with rfl | later
        · refine ⟨front, set, opening, step, steps, ⟨?_, isSet, paren, identifier⟩, rfl⟩
          simp
        · exact idle later
      · exact idle h

/-- A variable of a script is a word that a `set` begins with. -/
theorem exists_setWord_of_mem {lines : List Text} {name : Text} (h : name ∈ normalVariables lines) :
    ∃ k word, SetWord lines k word ∧ word.tokenText = name := by
  have named := (List.mem_filter.mp (Text.mem_of_mem_distinctBy h)).1
  obtain ⟨front, set, opening, word, rest, split, text⟩ :=
    exists_split_of_mem_setNames (show SetPhase.idle.Matches [] from trivial) named
  exact ⟨_, word, ⟨front, set, opening, rest, split, rfl⟩, text⟩

namespace SetSplit

variable {lines : List Text} {front rest : List Step} {set opening word : Step}
  (h : SetSplit (Walk.steps lines) front set opening word rest)
include h

theorem keyword : set.token.kind = .keyword ∧ set.token.command = some .setVariable := by
  simpa [isSet] using h.set

theorem scanned : set.Scanned ∧ set.after = opening.before ∧ opening.Scanned ∧
    opening.after = word.before ∧ word.Scanned := by
  obtain ⟨_, scanned, _, behind⟩ := Walk.run_of_steps_eq h.split
  obtain ⟨before, scanned', behind⟩ := behind.of_cons
  obtain ⟨before', scanned'', _⟩ := behind.of_cons
  exact ⟨scanned, before, scanned', before', scanned''⟩

/-- The parenthesis opens the argument list of the `set`. -/
theorem opensList : opening.opensList = true := by
  obtain ⟨scanned, before, scanned', _⟩ := h.scanned
  obtain ⟨outside, awaits⟩ := scanned.awaits_of_keyword h.keyword.1
  rw [before] at outside awaits
  exact scanned'.opensList_iff.mpr
    ⟨outside, scanned'.depth_after_openParen outside awaits h.paren⟩

theorem inner : word.before.depth.val = 1 := by
  obtain ⟨_, _, scanned, before, _⟩ := h.scanned
  rw [← before, (scanned.after_of_opensList h.opensList).2]
  rfl

theorem countP_opensList :
    (front ++ [set, opening]).countP Step.opensList = front.countP Step.opensList + 1 := by
  obtain ⟨scanned, _⟩ := h.scanned
  have quiet : ¬set.opensList = true := by
    intro start
    have := (scanned.opensList_iff.mp start).2
    have := (scanned.awaits_of_keyword h.keyword.1).1
    omega
  rw [List.countP_append, List.countP_cons_of_neg quiet, List.countP_singleton,
    if_pos h.opensList]

/-- What has been read at the parenthesis. -/
theorem foldl_after : (front ++ [set, opening]).foldl Reading.after (.between none) =
    .within (.ofStep set) (.start opening.line) := by
  have split := h.split
  have isWord : set.token.kind.isWord = true := by
    rw [h.keyword.1]
    rfl
  rw [List.append_cons] at split
  obtain ⟨name, found, _, read, _⟩ := exists_word_of_opensList split h.opensList
  rw [List.reverse_append, List.reverse_singleton, List.singleton_append, List.find?_cons,
    isWord] at found
  obtain rfl := Option.some.inj found
  rw [List.append_cons, List.foldl_append, read]
  exact Reading.after_of_opens h.paren h.opensList

theorem isWord : word.token.kind.isWord = true := by
  rw [h.word]
  rfl

/-- What is known of the word as one inside an argument list. -/
theorem inside_word : word.after = word.before ∧ word.before.inComment = false ∧
    word.before.inString = false ∧ word.tokenText.head? ≠ some Ascii.quote ∧
    word.tokenText ≠ [] ∧ Lexeme.wordLength word.following = 0 := by
  obtain ⟨_, _, _, _, scanned⟩ := h.scanned
  exact scanned.inside_word h.isWord (by rw [h.inner]; exact Nat.one_pos)

theorem closesList_word : word.closesList = false := by
  obtain ⟨_, _, _, _, scanned⟩ := h.scanned
  refine Bool.eq_false_iff.mpr fun stop => ?_
  obtain ⟨inside, outside⟩ := scanned.closesList_iff.mp stop
  rw [h.inside_word.1] at outside
  omega

/-- The word becomes the argument that is being read. -/
theorem add_word : ((Arguments.start opening.line).add word).done = [] ∧
    ((Arguments.start opening.line).add word).pending = some word.tokenText := by
  have stop : word.token.trigger.has .parameterEnd = false := h.closesList_word
  have entered : ((Arguments.start opening.line).enterLine word).done = [] ∧
      ((Arguments.start opening.line).enterLine word).pending = none := by
    unfold Arguments.enterLine
    rw [h.inside_word.2.2.1]
    split <;> exact ⟨rfl, rfl⟩
  simp [Arguments.add, stop, h.word, entered]

theorem split_word : Walk.steps lines = (front ++ [set, opening]) ++ word :: rest := by
  rw [h.split, List.append_assoc]
  rfl

/-- The statement is read on from the word. -/
theorem getElem?_statements : (statements lines)[front.countP Step.opensList]? =
    (readFrom (.within (.ofStep set) ((Arguments.start opening.line).add word)) rest).head? := by
  rw [getElem?_statements_of_split h.split_word (by rw [h.foldl_after]; rfl) h.countP_opensList,
    h.foldl_after, readFrom_cons, Reading.after_of_stays h.closesList_word]
  simp [Reading.completes?, h.closesList_word]

/-- What ends the argument of the word ends it for the reader, too. -/
theorem flush_isPrefix_of_endsArgument (ends : word.EndsArgument) {args : Arguments}
    (line : args.line = word.line) {next : Step} (behind : next ∈ rest.head?) :
    args.flush.done <+: (args.add next).done := by
  obtain ⟨after, comment, string, _⟩ := h.inside_word
  have before := Walk.before_eq_after h.split_word behind
  rw [after] at before
  cases goes : word.following with
  | nil =>
    have below := Walk.line_lt_of_following_eq_nil h.split_word goes behind
    exact args.flush_isPrefix_add (by omega) (before ▸ string)
  | cons c t =>
    obtain ⟨_, later, rfl, same, _, lexeme⟩ := Walk.exists_next_of_following h.split_word goes
    cases behind
    have ends := Lexeme.next_of_ends (t := t) comment string h.inner (ends c (by rw [goes]; rfl))
    rw [← after, ← lexeme] at ends
    have flushes : args.add next = args.flush := by
      refine args.add_of_ends (same.trans line.symm) (ends.imp_right fun blank => ?_)
      exact ⟨blank, before ▸ h.inner⟩
    rw [flushes]

/-- The word begins the first argument, and is the whole of it exactly if it ends its argument. -/
theorem exists_argument : ∃ arguments closed others q,
    readFrom (.within (.ofStep set) ((Arguments.start opening.line).add word)) rest =
      (Head.ofStep set).statement arguments closed :: others ∧
    arguments.head? = some (word.tokenText ++ q) ∧ (q = [] ↔ word.EndsArgument) := by
  obtain ⟨after, comment, string, quote, nonempty, behind⟩ := h.inside_word
  obtain ⟨done, pending⟩ := h.add_word
  have line : ((Arguments.start opening.line).add word).line = word.line := Arguments.line_add ..
  generalize (Arguments.start opening.line).add word = args at done pending line
  have unquoted (q : Text) : unquote (word.tokenText ++ q) = word.tokenText ++ q := by
    refine unquote_eq_self ?_
    rwa [List.head?_append_of_ne_nil _ nonempty]
  by_cases ends : word.EndsArgument
  · obtain ⟨arguments, closed, others, read, more, rfl⟩ := exists_arguments_of_flush (.ofStep set)
      fun next behind => h.flush_isPrefix_of_endsArgument ends line behind
    refine ⟨_, closed, others, [], read, ?_, iff_of_true rfl ends⟩
    simp [done, pending, unquote_eq_self quote]
  · obtain ⟨c, first, goes⟩ : ∃ c ∈ word.following.head?,
        ¬(Ascii.isSpace c = true ∨ c = Ascii.closeParen) := by
      simpa [Step.EndsArgument] using ends
    obtain ⟨t, following⟩ := List.head?_eq_some_iff.mp first
    obtain ⟨next, later, rfl, same, bytes, lexeme⟩ :=
      Walk.exists_next_of_following h.split_word following
    rw [following] at behind
    have goesOn := Lexeme.next_of_goesOn comment string h.inner behind goes
    rw [← after, ← lexeme] at goesOn
    obtain ⟨stop, blank, other⟩ := goesOn
    have stop : next.closesList = false := stop
    have length : 0 < next.token.length := by
      have positive := Lexeme.next_length_pos word.after c t
      rw [← lexeme] at positive
      exact positive
    have begins : (args.add next).BeginWith (word.tokenText ++ next.tokenText) := by
      rw [args.add_of_goesOn (same.trans line.symm) stop blank other]
      refine .inl ⟨done, [], ?_⟩
      rw [Arguments.pending_append, pending, List.append_nil]
      rfl
    obtain ⟨arguments, closed, others, q, read, argument⟩ :=
      exists_argument_of_beginWith begins (.ofStep set) later
    refine ⟨arguments, closed, others, next.tokenText ++ q, ?_, ?_, iff_of_false ?_ ends⟩
    · rw [readFrom_cons, Reading.after_of_stays stop, read]
      simp [Reading.completes?, stop]
    · rw [argument, List.append_assoc, unquoted]
    · obtain ⟨n, positive⟩ := Nat.exists_eq_add_of_lt length
      rw [Step.tokenText, bytes, positive, Nat.zero_add, List.take_succ_cons]
      exact List.cons_ne_nil _ _

end SetSplit

/-- **The word of a `set` begins its first argument.** The statement whose parenthesis the word
follows is a `set`; its first argument begins with the word, and is the word itself exactly if the
line goes on behind the word with what ends an argument. -/
theorem SetWord.exists_statement {lines : List Text} {k : Nat} {word : Step}
    (h : SetWord lines k word) : ∃ statement, (statements lines)[k]? = some statement ∧
      statement.command = some .setVariable ∧ word.tokenText <+: statement.argument 0 ∧
      (statement.argument 0 = word.tokenText ↔ word.EndsArgument) := by
  obtain ⟨front, set, opening, rest, split, rfl⟩ := h
  obtain ⟨arguments, closed, others, q, read, first, ends⟩ := split.exists_argument
  have argument : ((Statement.Head.ofStep set).statement arguments closed).argument 0 =
      word.tokenText ++ q := by
    rw [Statement.argument, List.getD_eq_getElem?_getD, ← List.head?_eq_getElem?]
    exact congrArg (Option.getD · []) first
  refine ⟨_, by rw [split.getElem?_statements, read]; rfl, split.keyword.2, ?_, ?_⟩
  · exact argument ▸ List.prefix_append ..
  · rw [argument, ← ends, List.append_right_eq_self]

/-- **Variables of a script and the arguments of `set`.** Every variable that a script is found to
set is a word directly behind the parenthesis of a `set` statement and a beginning of its first
argument; it is the whole of that argument exactly if its line goes on with a blank or a closing
parenthesis, or ends. Where that is so of every such word, the variables are first arguments. -/
theorem variables_begin_arguments (lines : List Text) :
    (∀ name ∈ normalVariables lines, ∃ k word statement, SetWord lines k word ∧
      word.tokenText = name ∧ (statements lines)[k]? = some statement ∧
      statement.command = some .setVariable ∧ name <+: statement.argument 0 ∧
      (statement.argument 0 = name ↔ word.EndsArgument)) ∧
    ((∀ k word, SetWord lines k word → word.EndsArgument) →
      ∀ name ∈ normalVariables lines, ∃ statement ∈ statements lines,
        statement.command = some .setVariable ∧ statement.argument 0 = name) := by
  have found : ∀ name ∈ normalVariables lines, ∃ k word statement, SetWord lines k word ∧
      word.tokenText = name ∧ (statements lines)[k]? = some statement ∧
      statement.command = some .setVariable ∧ name <+: statement.argument 0 ∧
      (statement.argument 0 = name ↔ word.EndsArgument) := by
    intro name member
    obtain ⟨k, word, set, rfl⟩ := exists_setWord_of_mem member
    obtain ⟨statement, rest⟩ := set.exists_statement
    exact ⟨k, word, statement, set, rfl, rest⟩
  refine ⟨found, fun ends name member => ?_⟩
  obtain ⟨k, word, statement, set, _, here, command, _, whole⟩ := found name member
  exact ⟨statement, List.mem_of_getElem? here, command, whole.mpr (ends k word set)⟩

/-- Before a line end, and before a reference. -/
theorem variables_begin_arguments_of_plain_and_composed :
    (∃ statement ∈ statements [utf8 "set(FOO", utf8 "1)"],
      statement.command = some .setVariable ∧ statement.argument 0 = utf8 "FOO") ∧
    ∃ k word statement, SetWord [utf8 "set(FOO$\x7bBAR\x7d 1)"] k word ∧
      word.tokenText = utf8 "FOO" ∧
      (statements [utf8 "set(FOO$\x7bBAR\x7d 1)"])[k]? = some statement ∧
      utf8 "FOO" <+: statement.argument 0 := by
  constructor
  · have ends : ∀ word ∈ Walk.steps [utf8 "set(FOO", utf8 "1)"],
        word.token.kind = .identifier → word.EndsArgument := by decide +kernel
    refine (variables_begin_arguments _).2 ?_ (utf8 "FOO") (by decide +kernel)
    rintro k word ⟨_, _, _, _, split, _⟩
    exact ends word (by simp [split.split]) split.word
  · obtain ⟨k, word, statement, set, text, here, _, begins, _⟩ := (variables_begin_arguments
      [utf8 "set(FOO$\x7bBAR\x7d 1)"]).1 (utf8 "FOO") (by decide +kernel)
    exact ⟨k, word, statement, set, text, here, begins⟩

/-- A reference right behind the word, which the first argument takes along. -/
theorem variable_not_argument :
    ¬∀ text, ∀ name ∈ normalVariables (lines text), ∃ statement ∈ statements (lines text),
      statement.command = some .setVariable ∧ statement.argument 0 = name := by
  intro whole
  obtain ⟨statement, member, _, argument⟩ :=
    whole (utf8 "set(FOO$\x7bBAR\x7d 1)") (utf8 "FOO") (by decide +kernel)
  revert statement
  decide +kernel

end Script

end CMakeSense
