import CMakeSense.Proofs.Token.Walk
import CMakeSense.Script.Statement

/-! Reading statements one token at a time. In an argument list a token ends the argument before it,
adds its text, or does neither (`Arguments.add_cases`). `Reading.after` is what has been read after
one more token and `Reading.completes?` the statement that the token completes, so that the
statements of a script cut anywhere are those completed before the cut and those read from there on
(`readFrom_append`). Along a walk, what has been read fits the state (`Reading.Fits`): an argument
list is being read exactly inside parentheses, and a word is held exactly while it awaits its
parenthesis. One token therefore turns reading in one of five ways (`Reading.Turn`), which is all
that the queries about a position need to know of it. -/

namespace CMakeSense

/-- Whether a step is a blank between two arguments. -/
def Step.separates (step : Step) : Bool :=
  step.token.kind = .whiteSpace && step.before.depth.val = 1

theorem Step.separates_iff {step : Step} :
    step.separates = true ↔ step.token.kind = .whiteSpace ∧ step.before.depth.val = 1 := by
  rw [separates, Bool.and_eq_true, decide_eq_true_eq, decide_eq_true_eq]

namespace Arguments

@[simp] theorem line_flush (args : Arguments) : args.flush.line = args.line := by
  obtain ⟨ended, begun, line⟩ := args
  cases begun <;> rfl

@[simp] theorem line_enterLine (args : Arguments) (step : Step) :
    (args.enterLine step).line = step.line := by
  unfold enterLine
  split
  · next same => exact same.symm
  · split <;> rfl

/-- A token ends the argument before it, adds its text, or does neither. -/
theorem add_cases (args : Arguments) (step : Step) :
    args.add step = (args.enterLine step).flush ∨ args.add step = args.enterLine step ∨
      args.add step = (args.enterLine step).append step.tokenText := by
  unfold add
  simp only
  split
  · exact .inl rfl
  split
  · exact .inr (.inl rfl)
  split
  · exact .inl rfl
  · exact .inr (.inr rfl)

@[simp] theorem line_add (args : Arguments) (step : Step) : (args.add step).line = step.line := by
  have entered := args.line_enterLine step
  rcases args.add_cases step with added | added | added
  · rw [added, line_flush, entered]
  · rw [added, entered]
  · rw [added]
    exact entered

section Token
variable {step : Step}

/-- A token that closes the list or separates two arguments ends the one before it. -/
theorem add_eq_flush (ends : step.closesList = true ∨ step.separates = true) (args : Arguments) :
    args.add step = (args.enterLine step).flush := by
  rw [Step.closesList, Step.separates_iff] at ends
  unfold add
  simp only
  rcases ends with stop | blank
  · rw [if_pos stop]
  · split
    · rfl
    · simp [blank]

theorem add_of_comment (kind : step.token.kind = .comment) (stop : step.closesList = false)
    (args : Arguments) : args.add step = args.enterLine step := by
  rw [Step.closesList] at stop
  simp [add, stop, kind]

theorem add_eq_append (stop : step.closesList = false) (comment : step.token.kind ≠ .comment)
    (separates : step.separates = false) (args : Arguments) :
    args.add step = (args.enterLine step).append step.tokenText := by
  rw [Step.closesList] at stop
  rw [Step.separates] at separates
  simp [add, stop, comment, separates]

theorem pending_add_of_closesList (stop : step.closesList = true) (args : Arguments) :
    (args.add step).pending = none := by
  rw [add_eq_flush (.inl stop), pending_flush]

end Token

theorem done_isPrefix_flush (args : Arguments) : args.done <+: args.flush.done := by
  rw [done_flush]
  exact List.prefix_append ..

theorem done_isPrefix_enterLine (args : Arguments) (step : Step) :
    args.done <+: (args.enterLine step).done := by
  unfold enterLine
  split
  · exact List.prefix_rfl
  split
  · exact List.prefix_rfl
  · exact args.done_isPrefix_flush

/-- An argument that has ended stays. -/
theorem done_isPrefix_add (args : Arguments) (step : Step) :
    args.done <+: (args.add step).done := by
  have entered := args.done_isPrefix_enterLine step
  rcases args.add_cases step with added | added | added
  · exact added ▸ entered.trans (done_isPrefix_flush _)
  · exact added ▸ entered
  · exact added ▸ entered

/-- A token on a new line outside of strings ends the argument before it. -/
theorem flush_isPrefix_add (args : Arguments) {step : Step} (moved : step.line ≠ args.line)
    (plain : step.before.inString = false) : args.flush.done <+: (args.add step).done := by
  have entered : (args.enterLine step).done = args.flush.done := by
    simp [enterLine, moved, plain, done]
  rw [← entered]
  rcases args.add_cases step with added | added | added
  · exact added ▸ done_isPrefix_flush _
  · exact added ▸ List.prefix_rfl
  · exact added ▸ List.prefix_rfl

theorem done_isPrefix_foldl_add (args : Arguments) (steps : List Step) :
    args.done <+: (steps.foldl add args).done := by
  induction steps generalizing args with
  | nil => exact List.prefix_rfl
  | cons step steps ih => exact (args.done_isPrefix_add step).trans (ih _)

end Arguments

namespace Statement

namespace Reading

/-- What has been read after one more token. -/
def after : Reading → Step → Reading
  | .between head?, step => .afterOutside head? step
  | .within head args, step =>
    if step.closesList then .between none else .within head (args.add step)

/-- The statement that a token completes. -/
def completes? : Reading → Step → Option Statement
  | .between _, _ => none
  | .within head args, step =>
    if step.closesList then some (head.statement (args.add step).done true) else none

/-- Whether an argument list is being read. -/
def isWithin : Reading → Bool
  | .between _ => false
  | .within .. => true

/-- What has been read agrees with the state: an argument list is read inside parentheses, and a
word is held while it awaits one. The command of the statement to come is the last one named. -/
def Fits : Reading → State → Prop
  | .between head?, s =>
    s.depth.val = 0 ∧ head?.isSome = s.awaitsParen ∧ ∀ head ∈ head?, head.command = s.lastCommand
  | .within head _, s =>
    0 < s.depth.val ∧ s.awaitsParen = false ∧ head.command = s.lastCommand

/-- How one token of a walk turns reading. -/
inductive Turn (step : Step) : Reading → Reading → Prop where
  | opens {head : Head} (kind : step.token.kind = .openParen) (start : step.opensList = true)
      (stop : step.closesList = false) :
      Turn step (.between (some head)) (.within head (.start step.line))
  | closes {head : Head} {args : Arguments} (start : step.opensList = false)
      (stop : step.closesList = true) (next : step.token.trigger.has .parameterNext = false) :
      Turn step (.within head args) (.between none)
  | names {head? : Option Head} (word : step.token.kind.isWord = true)
      (start : step.opensList = false) (stop : step.closesList = false) :
      Turn step (.between head?) (.between (some (.ofStep step)))
  | passes {head? kept? : Option Head} (word : step.token.kind.isWord = false)
      (start : step.opensList = false) (stop : step.closesList = false)
      (kept : ∀ head ∈ kept?, head ∈ head?) : Turn step (.between head?) (.between kept?)
  | stays {head : Head} {args : Arguments} (start : step.opensList = false)
      (stop : step.closesList = false) :
      Turn step (.within head args) (.within head (args.add step))

section Token
variable {head? : Option Head} {head : Head} {args : Arguments} {step : Step}

theorem after_of_isWord (word : step.token.kind.isWord = true) :
    after (.between head?) step = .between (some (.ofStep step)) := by
  cases kind : step.token.kind <;> simp_all [after, afterOutside, TokenKind.isWord]

theorem after_of_opens (kind : step.token.kind = .openParen) (start : step.opensList = true) :
    after (.between (some head)) step = .within head (.start step.line) := by
  simp_all [after, afterOutside, Step.opensList]

theorem after_of_rests (kind : step.token.kind = .whiteSpace ∨ step.token.kind = .comment) :
    after (.between head?) step = .between head? := by
  rcases kind with kind | kind <;> simp [after, afterOutside, kind]

theorem after_of_breaks (word : step.token.kind.isWord = false)
    (blank : step.token.kind ≠ .whiteSpace) (comment : step.token.kind ≠ .comment)
    (start : step.opensList = false) : after (.between head?) step = .between none := by
  cases kind : step.token.kind <;>
    simp_all [after, afterOutside, TokenKind.isWord, Step.opensList]

theorem after_of_closes (stop : step.closesList = true) :
    after (.within head args) step = .between none := by
  simp [after, stop]

theorem after_of_stays (stop : step.closesList = false) :
    after (.within head args) step = .within head (args.add step) := by
  simp [after, stop]

/-- Tokens that do not close the argument list are all added to it. -/
theorem foldl_after_within {steps : List Step} (h : ∀ step ∈ steps, step.closesList = false) :
    steps.foldl after (.within head args) = .within head (steps.foldl Arguments.add args) := by
  induction steps generalizing args with
  | nil => rfl
  | cons step steps ih =>
    rw [List.foldl_cons, after_of_stays (h step List.mem_cons_self), List.foldl_cons]
    exact ih fun next hnext => h next (List.mem_cons_of_mem _ hnext)

end Token

section Turn
variable {head? : Option Head} {head : Head} {args : Arguments} {step : Step}

theorem Fits.turn_between (fits : Fits (.between head?) step.before)
    (effect : step.lexeme.Effect step.before step.rest) :
    Turn step (.between head?) (after (.between head?) step) ∧
      (after (.between head?) step).Fits step.after := by
  obtain ⟨outside, held, command⟩ := fits
  cases effect with
  | opens _ awaited kind trigger after =>
    have start : step.opensList = true := congrArg (Trigger.has · .parameterStart) trigger
    obtain ⟨head, rfl⟩ := Option.isSome_iff_exists.mp (held.trans awaited)
    rw [after_of_opens kind start, show step.after = _ from after]
    refine ⟨.opens kind start ?_, by simp, rfl, command head rfl⟩
    exact congrArg (Trigger.has · .parameterEnd) trigger
  | names _ _ word trigger _ after =>
    have quiet (flag : Trigger) : step.token.trigger.has flag = false :=
      (congrArg (Trigger.has · flag) trigger).trans (Trigger.has_none flag)
    rw [after_of_isWord word, show step.after = _ from after]
    refine ⟨.names word (quiet _) (quiet _), outside, rfl, fun head h => ?_⟩
    cases h
    exact (State.lastCommand_withCommand step.before step.token.command).symm
  | rests _ kind trigger continues awaits =>
    have quiet (flag : Trigger) : step.token.trigger.has flag = false :=
      (congrArg (Trigger.has · flag) trigger).trans (Trigger.has_none flag)
    have word : step.token.kind.isWord = false := by
      rcases kind with kind | kind <;> exact congrArg TokenKind.isWord kind
    rw [after_of_rests kind]
    refine ⟨.passes word (quiet _) (quiet _) fun _ h => h, continues.depth ▸ outside,
      held.trans awaits.symm, continues.lastCommand ▸ command⟩
  | breaks _ word blank comment start stop continues awaits =>
    rw [after_of_breaks word blank comment start]
    exact ⟨.passes word start stop nofun, continues.depth ▸ outside, awaits.symm, nofun⟩
  | closes inner => omega
  | stays inside => omega

theorem Fits.turn_within (fits : Fits (.within head args) step.before)
    (effect : step.lexeme.Effect step.before step.rest) :
    Turn step (.within head args) (after (.within head args) step) ∧
      (after (.within head args) step).Fits step.after := by
  obtain ⟨inside, settled, command⟩ := fits
  cases effect with
  | closes inner _ trigger after =>
    have stop : step.closesList = true := congrArg (Trigger.has · .parameterEnd) trigger
    rw [after_of_closes stop, show step.after = _ from after]
    refine ⟨.closes ?_ stop ?_, rfl, settled.symm, nofun⟩
    · exact congrArg (Trigger.has · .parameterStart) trigger
    · exact congrArg (Trigger.has · .parameterNext) trigger
  | stays _ start stop within lastCommand awaits =>
    rw [after_of_stays stop]
    refine ⟨.stays start stop, within, ?_, command.trans lastCommand.symm⟩
    exact Bool.eq_false_iff.mpr fun h => by simp [awaits h] at settled
  | _ => omega

/-- One token turns reading in one of five ways, and what has been read still fits. -/
theorem Fits.turn {reading : Reading} (fits : reading.Fits step.before) (scanned : step.Scanned) :
    ∃ next, reading.after step = next ∧ Turn step reading next ∧ next.Fits step.after := by
  cases reading with
  | between head? => exact ⟨_, rfl, fits.turn_between scanned.effect⟩
  | within head args => exact ⟨_, rfl, fits.turn_within scanned.effect⟩

end Turn

theorem fits_start : Fits (.between none) .start := ⟨rfl, rfl, nofun⟩

section Run
variable {reading : Reading} {s t : State} {steps : List Step}

/-- Following tokens beside reading: what every turn keeps between the two, a run keeps. -/
theorem Fits.run_induction {σ : Type} (follow : σ → Step → σ) {motive : σ → Reading → State → Prop}
    (keeps : ∀ {x : σ} {reading next : Reading} {step : Step}, motive x reading step.before →
      step.Scanned → Turn step reading next → next.Fits step.after →
      motive (follow x step) next step.after)
    {x : σ} (h : motive x reading s) (fits : reading.Fits s) (run : Walk.Run s steps t) :
    motive (steps.foldl follow x) (steps.foldl after reading) t := by
  induction run generalizing x reading with
  | nil => exact h
  | cons scanned _ ih =>
    obtain ⟨_, rfl, turn, fits⟩ := fits.turn scanned
    exact ih (keeps h scanned turn fits) fits

/-- What has been read fits the state all along a run. -/
theorem Fits.run (fits : reading.Fits s) (run : Walk.Run s steps t) :
    (steps.foldl after reading).Fits t := by
  induction run generalizing reading with
  | nil => exact fits
  | cons scanned _ ih =>
    obtain ⟨_, rfl, _, fits⟩ := fits.turn scanned
    exact ih fits

end Run

end Reading

/-- The statements that some steps complete, without one that they leave open. -/
def completed : Reading → List Step → List Statement
  | _, [] => []
  | reading, step :: steps =>
    (reading.completes? step).toList ++ completed (reading.after step) steps

theorem readFrom_cons (reading : Reading) (step : Step) (steps : List Step) :
    readFrom reading (step :: steps) =
      (reading.completes? step).toList ++ readFrom (reading.after step) steps := by
  cases reading with
  | between head? => rfl
  | within head args =>
    cases stop : step.token.trigger.has .parameterEnd <;>
      simp [readFrom, Reading.completes?, Reading.after, Step.closesList, stop]

/-- A script cut anywhere: the statements completed before the cut, then those read from there
on. -/
theorem readFrom_append (reading : Reading) (xs ys : List Step) :
    readFrom reading (xs ++ ys) =
      completed reading xs ++ readFrom (xs.foldl Reading.after reading) ys := by
  induction xs generalizing reading with
  | nil => rfl
  | cons step xs ih =>
    rw [List.cons_append, readFrom_cons, ih, completed, List.append_assoc, List.foldl_cons]

/-- The statement that is being read comes next, whatever follows, with the arguments read so far
and perhaps more. -/
theorem readFrom_within (head : Head) (args : Arguments) (steps : List Step) :
    ∃ arguments closed rest, args.done <+: arguments ∧
      readFrom (.within head args) steps = head.statement arguments closed :: rest := by
  induction steps generalizing args with
  | nil => exact ⟨args.flush.done, false, [], args.done_isPrefix_flush, rfl⟩
  | cons step steps ih =>
    have added := args.done_isPrefix_add step
    rw [readFrom_cons]
    cases stop : step.closesList with
    | true =>
      refine ⟨(args.add step).done, true, readFrom (.between none) steps, added, ?_⟩
      simp [Reading.completes?, Reading.after, stop]
    | false =>
      obtain ⟨arguments, closed, rest, extends_, hread⟩ := ih (args.add step)
      refine ⟨arguments, closed, rest, added.trans extends_, ?_⟩
      simp [Reading.completes?, Reading.after, stop, hread]

/-- An argument that the next token ends, or the end of the script, is one of the statement. -/
theorem exists_arguments_of_flush {args : Arguments} {steps : List Step} (head : Head)
    (ends : ∀ step ∈ steps.head?, args.flush.done <+: (args.add step).done) :
    ∃ arguments closed rest,
      readFrom (.within head args) steps = head.statement arguments closed :: rest ∧
      args.flush.done <+: arguments := by
  cases steps with
  | nil => exact ⟨_, false, [], rfl, List.prefix_rfl⟩
  | cons step steps =>
    have flushed := ends step rfl
    rw [readFrom_cons]
    cases stop : step.closesList with
    | true =>
      refine ⟨_, true, readFrom (.between none) steps, ?_, flushed⟩
      simp [Reading.completes?, Reading.after, stop]
    | false =>
      obtain ⟨arguments, closed, rest, more, read⟩ := readFrom_within head (args.add step) steps
      refine ⟨arguments, closed, rest, ?_, flushed.trans more⟩
      simp [Reading.completes?, Reading.after, stop, read]

section Count
variable {reading : Reading} {s t : State} {steps : List Step}

/-- Every closing parenthesis completes a statement, and nothing else does. -/
theorem length_completed (fits : reading.Fits s) (run : Walk.Run s steps t) :
    (completed reading steps).length = steps.countP Step.closesList := by
  induction run generalizing reading with
  | nil => rfl
  | @cons step _ _ scanned _ ih =>
    obtain ⟨next, hnext, turn, fits⟩ := fits.turn scanned
    rw [completed, List.length_append, List.countP_cons, hnext, ih fits, Nat.add_comm]
    cases turn <;> simp_all [Reading.completes?]

/-- The argument lists that are opened are those that are closed and the one that is left open. -/
theorem countP_opensList (fits : reading.Fits s) (run : Walk.Run s steps t) :
    steps.countP Step.opensList + reading.isWithin.toNat =
      steps.countP Step.closesList + (steps.foldl Reading.after reading).isWithin.toNat := by
  induction run generalizing reading with
  | nil => simp
  | @cons step _ _ scanned _ ih =>
    obtain ⟨next, hnext, turn, fits⟩ := fits.turn scanned
    have counted := ih fits
    rw [List.countP_cons, List.countP_cons, List.foldl_cons, hnext]
    cases turn <;> simp_all [Reading.isWithin]
    omega

end Count

end Statement

end CMakeSense
