import CMakeSense.Proofs.Script.Heading
import CMakeSense.Proofs.Script.Shift
import CMakeSense.Proofs.Script.Spelling

/-! What statements keep of their tokens. Every argument list that is opened becomes one statement,
and all of them are closed but one that the script ends within. Without quotes nothing is taken away
from an argument, so that the bytes read so far (`Arguments.bytes`) grow with every token by its
text, or by nothing if it is a comment or separates two arguments: the arguments of a statement put
together are the tokens of its argument list. -/

namespace CMakeSense

open Statement

/-- Only a quote begins a string. -/
theorem Lexeme.inString_next_of_notMem {s : State} (string : s.inString = false) {c : UInt8}
    {t : Text} (unquoted : Ascii.quote ∉ c :: t) : (next s c t).after.inString = false := by
  have byte : c ≠ Ascii.quote := fun same => unquoted (same ▸ List.mem_cons_self)
  unfold next
  split
  · rw [inString_commentBody, string]
  rw [if_neg (by simp [string])]
  split
  · rw [inString_comment, string]
  split
  · exact string
  split
  · rw [inString_openParen, string]
  split
  · rw [inString_closeParen, string]
  split
  · exact string
  split
  · exact string
  · rw [inString_word, string]

namespace Step

/-- The step does not stand in a string, and the token has no quote. -/
structure Unquoted (step : Step) : Prop where
  string : step.before.inString = false
  text : ∀ c ∈ step.tokenText, c ≠ Ascii.quote

/-- Whether the bytes of the token go into an argument, where it stands in an argument list. -/
def isSpelled (step : Step) : Bool := step.token.kind ≠ .comment && !step.separates

end Step

/-- Without quotes no string is ever open. -/
theorem Walk.Run.inString_eq_false {s t : State} {steps : List Step} (run : Run s steps t)
    (string : s.inString = false) (unquoted : ∀ step ∈ steps, Ascii.quote ∉ step.rest) :
    ∀ step ∈ steps, step.before.inString = false := by
  induction run with
  | nil => simp
  | @cons step steps t scanned _ ih =>
    intro other member
    rcases List.mem_cons.mp member with rfl | later
    · exact string
    · refine ih ?_ (fun next here => unquoted next (List.mem_cons_of_mem step here)) other later
      obtain ⟨_, c, t, rest, next⟩ := scanned
      have after : step.after = (Lexeme.next step.before c t).after := congrArg Lexeme.after next
      rw [after]
      exact Lexeme.inString_next_of_notMem string (rest ▸ unquoted step List.mem_cons_self)

theorem Walk.unquoted_of_mem_steps {lines : List Text}
    (unquoted : ∀ line ∈ lines, Ascii.quote ∉ line) : ∀ step ∈ steps lines, step.Unquoted := by
  intro step member
  have rests : ∀ step ∈ steps lines, Ascii.quote ∉ step.rest := by
    intro step member quoted
    obtain ⟨line, inside, here⟩ := mem_line_of_mem_rest member quoted
    exact unquoted line inside here
  refine ⟨(run_steps lines).inString_eq_false rfl rests step member, fun c hc same => ?_⟩
  exact rests step member (same ▸ List.mem_of_mem_take hc)

namespace Arguments

/-- The bytes of the arguments read so far. -/
def bytes (args : Arguments) : Text := args.done.flatten ++ args.pending.getD []

theorem flatten_done {args : Arguments} (none : args.pending = none) :
    args.done.flatten = args.bytes := by
  rw [bytes, none, Option.getD_none, List.append_nil]

variable {args : Arguments} (plain : args.Spelled (· ≠ Ascii.quote))

theorem bytes_append (args : Arguments) (text : Text) :
    (args.append text).bytes = args.bytes ++ text := by
  rw [bytes, bytes, done_append, pending_append, Option.getD_some, List.append_assoc]

include plain

/-- Without quotes an argument ends as it has been read. -/
theorem unquote_pending {text : Text} (pending : text ∈ args.pending) : unquote text = text :=
  unquote_eq_self fun first => plain.pending text pending _ (List.mem_of_head? first) rfl

theorem bytes_flush : args.flush.bytes = args.bytes := by
  rw [bytes, bytes, done_flush, pending_flush]
  cases pending : args.pending with
  | none => simp
  | some text => simp [unquote_pending plain pending]

variable {step : Step} (unquoted : step.Unquoted)
include unquoted

theorem bytes_enterLine : (args.enterLine step).bytes = args.bytes := by
  unfold enterLine
  split
  · rfl
  · rw [if_neg (by simp [unquoted.string])]
    exact bytes_flush plain

theorem spelled_enterLine : (args.enterLine step).Spelled (· ≠ Ascii.quote) := by
  unfold enterLine
  split
  · exact plain
  · rw [if_neg (by simp [unquoted.string])]
    obtain ⟨done, pending⟩ := plain.flush
    exact ⟨done, pending⟩

/-- The token that closes the list is no part of an argument. -/
theorem bytes_add_of_closesList (stop : step.closesList = true) :
    (args.add step).bytes = args.bytes := by
  rw [add_eq_flush (.inl stop), bytes_flush (spelled_enterLine plain unquoted),
    bytes_enterLine plain unquoted]

/-- Any other token adds its text, unless it is a comment or separates two arguments. -/
theorem bytes_add (stop : step.closesList = false) :
    (args.add step).bytes = args.bytes ++ if step.isSpelled then step.tokenText else [] := by
  have entered := bytes_enterLine plain unquoted
  by_cases comment : step.token.kind = .comment
  · rw [add_of_comment comment stop, entered]
    simp [Step.isSpelled, comment]
  cases separates : step.separates with
  | true =>
    rw [add_eq_flush (.inr separates), bytes_flush (spelled_enterLine plain unquoted), entered]
    simp [Step.isSpelled, separates]
  | false =>
    rw [add_eq_append stop comment separates, bytes_append, entered]
    simp [Step.isSpelled, separates, comment]

end Arguments

namespace Statement

/-- The bytes that some steps add to the argument list that is open before them. -/
def spelling (steps : List Step) : Text :=
  ((steps.takeWhile (!·.closesList)).filter Step.isSpelled).flatMap Step.tokenText

theorem spelling_of_closesList {step : Step} (stop : step.closesList = true) (steps : List Step) :
    spelling (step :: steps) = [] := by
  simp [spelling, stop]

theorem spelling_of_stays {step : Step} (stop : step.closesList = false) (steps : List Step) :
    spelling (step :: steps) =
      (if step.isSpelled then step.tokenText else []) ++ spelling steps := by
  cases spelled : step.isSpelled <;> simp [spelling, stop, spelled]

/-- The arguments of the statement that is being read are what has been read of them and the tokens
up to the end of the list. -/
theorem flatten_arguments_of_within {args : Arguments} (plain : args.Spelled (· ≠ Ascii.quote))
    {steps : List Step} (unquoted : ∀ step ∈ steps, step.Unquoted) (head : Head) :
    ∃ arguments closed rest,
      readFrom (.within head args) steps = head.statement arguments closed :: rest ∧
      arguments.flatten = args.bytes ++ spelling steps := by
  induction steps generalizing args with
  | nil =>
    refine ⟨args.flush.done, false, [], rfl, ?_⟩
    rw [Arguments.flatten_done args.pending_flush, Arguments.bytes_flush plain]
    exact (List.append_nil _).symm
  | cons step steps ih =>
    have here := unquoted step List.mem_cons_self
    rw [readFrom_cons]
    cases stop : step.closesList with
    | true =>
      refine ⟨(args.add step).done, true, readFrom (.between none) steps, ?_, ?_⟩
      · simp [Reading.completes?, Reading.after, stop]
      · rw [Arguments.flatten_done (args.pending_add_of_closesList stop),
          Arguments.bytes_add_of_closesList plain here stop, spelling_of_closesList stop,
          List.append_nil]
    | false =>
      obtain ⟨arguments, closed, rest, read, spelled⟩ := ih (plain.add (by decide) here.text)
        fun next later => unquoted next (List.mem_cons_of_mem step later)
      refine ⟨arguments, closed, rest, ?_, ?_⟩
      · simp [Reading.completes?, Reading.after, stop, read]
      · rw [spelled, Arguments.bytes_add plain here stop, spelling_of_stays stop,
          List.append_assoc]

/-- A statement that a token completes is closed. -/
theorem closed_of_mem_completed {reading : Reading} {steps : List Step} {statement : Statement}
    (h : statement ∈ completed reading steps) : statement.closed = true := by
  induction steps generalizing reading with
  | nil => cases h
  | cons step steps ih =>
    rw [completed, List.mem_append, Option.mem_toList] at h
    rcases h with here | later
    · cases reading with
      | between head? => cases here
      | within head args =>
        rw [Reading.completes?] at here
        split at here
        · cases here
          rfl
        · cases here
    · exact ih later

end Statement

namespace Script

/-- Only the last statement may be left open, and it is where the script ends within an argument
list. -/
theorem closed_statements (lines : List Text) :
    (∀ statement ∈ (statements lines).dropLast, statement.closed = true) ∧
    ∀ last ∈ (statements lines).getLast?,
      last.closed = true ↔ (Walk.final (Walk.steps lines)).depth.val = 0 := by
  have fits := Reading.fits_start.run (Walk.run_steps lines)
  have parts := readFrom_append (.between none) (Walk.steps lines) []
  rw [← Walk.final_steps] at fits
  rw [List.append_nil] at parts
  rw [statements, parts]
  cases left : (Walk.steps lines).foldl Reading.after (.between none) with
  | between head? =>
    rw [left] at fits
    rw [readFrom, List.append_nil]
    refine ⟨fun statement member => ?_, fun last here => iff_of_true ?_ fits.1⟩
    · exact closed_of_mem_completed ((List.dropLast_subset _) member)
    · exact closed_of_mem_completed (List.mem_of_getLast? here)
  | within head args =>
    rw [left] at fits
    rw [readFrom, List.dropLast_concat, List.getLast?_concat]
    refine ⟨fun _ => closed_of_mem_completed, fun last here => ?_⟩
    cases here
    exact iff_of_false Bool.false_ne_true (Nat.ne_of_gt fits.1)

/-- In a script without quotes the arguments of a statement spell its argument list. -/
theorem flatten_arguments_of_opensList {lines : List Text} {front rest : List Step} {opening : Step}
    (split : Walk.steps lines = front ++ opening :: rest) (opens : opening.opensList = true)
    (unquoted : ∀ line ∈ lines, Ascii.quote ∉ line) {statement : Statement}
    (h : (statements lines)[front.countP Step.opensList]? = some statement) :
    statement.arguments.flatten = spelling rest := by
  have behind : ∀ step ∈ rest, step.Unquoted := by
    intro step member
    refine Walk.unquoted_of_mem_steps unquoted step ?_
    rw [split]
    exact List.mem_append_right _ (List.mem_cons_of_mem _ member)
  obtain ⟨word, _, read⟩ := getElem?_statements_of_opensList split opens
  obtain ⟨arguments, closed, others, within, spelled⟩ :=
    flatten_arguments_of_within (Arguments.spelled_start opening.line) behind (.ofStep word)
  rw [h, within, List.head?_cons] at read
  obtain rfl := Option.some.inj read
  exact spelled

/-- **Statements lose and invent nothing.** There is one statement for each parenthesis that opens
an argument list, in the same order, with the name, the line and the command of the last word before
it. All but the last are closed, and the last one is where no parenthesis is open at the end. In a
script without quotes, the arguments of a statement put together are the tokens of its argument
list, without the blanks directly inside of it, the comments and the closing parenthesis. -/
theorem statements_spell_argument_lists (lines : List Text) :
    (statements lines).length = (Walk.steps lines).countP Step.opensList ∧
    (∀ statement ∈ (statements lines).dropLast, statement.closed = true) ∧
    (∀ last ∈ (statements lines).getLast?,
      last.closed = true ↔ (Walk.final (Walk.steps lines)).depth.val = 0) ∧
    ∀ k statement, (statements lines)[k]? = some statement →
      ∃ front opening rest name, Walk.steps lines = front ++ opening :: rest ∧
        opening.opensList = true ∧ front.countP Step.opensList = k ∧
        front.reverse.find? (·.token.kind.isWord) = some name ∧
        statement.name = name.tokenText ∧ statement.line = name.line ∧
        statement.command = name.token.command ∧
        ((∀ line ∈ lines, Ascii.quote ∉ line) →
          statement.arguments.flatten = spelling rest) := by
  obtain ⟨early, late⟩ := closed_statements lines
  refine ⟨length_statements lines, early, late, fun k statement h => ?_⟩
  obtain ⟨name, opening, heading⟩ := exists_heading h
  obtain ⟨arguments, closed, named⟩ := heading.exists_statement
  obtain rfl := Option.some.inj (h.symm.trans named)
  obtain ⟨front, rest, split, opens, rfl, found⟩ := heading
  refine ⟨front, opening, rest, name, split, opens, rfl, found, rfl, rfl, rfl, ?_⟩
  exact fun unquoted => flatten_arguments_of_opensList split opens unquoted h

/-- Blanks within inner parentheses are kept, and a comment, a line end and other blanks are not;
the list of the second statement is left open. -/
theorem statements_spell_argument_lists_with_inner_parentheses :
    let lines := [utf8 "if(A (B  C) #(", utf8 " D) f((a"]
    (∀ line ∈ lines, Ascii.quote ∉ line) ∧ (statements lines).length = 2 ∧
    (∃ last ∈ (statements lines).getLast?, last.closed = false) ∧
    (Walk.final (Walk.steps lines)).depth.val = 2 ∧
    ∃ front opening rest, Walk.steps lines = front ++ opening :: rest ∧
      opening.opensList = true ∧ front.countP Step.opensList = 0 ∧
      spelling rest = utf8 "A(B  C)D" := by
  intro lines
  have unquoted : ∀ line ∈ lines, Ascii.quote ∉ line := by decide +kernel
  have depth : (Walk.final (Walk.steps lines)).depth.val = 2 := by decide +kernel
  have first : (statements lines)[0]? = some ⟨Command.ofName? (utf8 "if"), utf8 "if", 0,
      [utf8 "A", utf8 "(B  C)", utf8 "D"], true⟩ := by decide +kernel
  obtain ⟨count, _, late, along⟩ := statements_spell_argument_lists lines
  refine ⟨unquoted, count.trans (by decide +kernel), ?_, depth, ?_⟩
  · obtain ⟨last, here⟩ : ∃ last, last ∈ (statements lines).getLast? :=
      Option.isSome_iff_exists.mp (by decide +kernel)
    refine ⟨last, here, Bool.eq_false_iff.mpr fun closed => ?_⟩
    rw [late last here, depth] at closed
    cases closed
  · obtain ⟨front, opening, rest, _, split, opens, counted, _, _, _, _, spelled⟩ := along 0 _ first
    exact ⟨front, opening, rest, split, opens, counted, (spelled unquoted).symm⟩

end Script

end CMakeSense
