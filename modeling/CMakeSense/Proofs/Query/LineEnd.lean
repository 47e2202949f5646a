import CMakeSense.Proofs.Query.Enclosing

/-! Arguments that a line end has finished. An argument that is being read at the end of a line
ends there, but the reader learns of the line end only from the first token after it. So a position
on a line that is not empty shows all arguments of the earlier lines, while on an empty line an
argument at the very end of the lines before is missing. -/

namespace CMakeSense

open Statement

/-- Whether some steps, the last one first, end in an argument: but for comments on its line, the
last one neither opens an argument list nor separates two arguments. -/
def Script.endsInArgument : List Step → Bool
  | [] => false
  | step :: earlier =>
    if step.token.kind = .comment then
      earlier.head?.any (·.line = step.line) && endsInArgument earlier
    else !(step.opensList || step.separates)

namespace Arguments

variable (args : Arguments) (step : Step)

theorem isSome_pending_enterLine :
    (args.enterLine step).pending.isSome =
      if step.line = args.line then args.pending.isSome else step.before.inString := by
  unfold enterLine
  split
  · rfl
  · split
    · next string => simp [string, append, pending]
    · next plain =>
      rw [Bool.eq_false_iff.mpr plain]
      exact congrArg Option.isSome args.pending_flush

variable {step}

theorem isSome_pending_add (stop : step.closesList = false) :
    (args.add step).pending.isSome =
      if step.token.kind = .comment then
        if step.line = args.line then args.pending.isSome else step.before.inString
      else !step.separates := by
  by_cases comment : step.token.kind = .comment
  · rw [add_of_comment comment stop, if_pos comment, isSome_pending_enterLine]
  rw [if_neg comment]
  cases separates : step.separates with
  | true =>
    rw [add_eq_flush (.inr separates), pending_flush]
    rfl
  | false =>
    rw [add_eq_append stop comment separates, pending_append]
    rfl

/-- Ending the argument that is being read adds one, if there is any. -/
theorem flush_isPrefix_done_iff : args.flush.done <+: args.done ↔ args.pending.isSome = false := by
  rw [done_flush]
  cases args.pending with
  | none => simp
  | some bytes =>
    refine iff_of_false (fun h => ?_) (by simp)
    have := h.length_le
    simp only [List.length_append, Option.map_some, Option.toList_some,
      List.length_singleton] at this
    omega

end Arguments

namespace Statement.Reading

/-- What an argument list that is being read tells of the steps before, the last one first: their
line, and whether they end in an argument. -/
def Ends : Reading → List Step → Prop
  | .between _, _ => True
  | .within _ args, steps => steps.head?.map (·.line) = some args.line ∧
      args.pending.isSome = Script.endsInArgument steps

theorem Ends.turn {reading next : Reading} {step : Step} {steps : List Step}
    (ends : reading.Ends steps) (turn : Turn step reading next) (scanned : step.Scanned) :
    next.Ends (step :: steps) := by
  cases turn with
  | opens kind start stop =>
    refine ⟨rfl, ?_⟩
    simp [Script.endsInArgument, kind, start]
  | @stays head args start stop =>
    obtain ⟨line, pending⟩ := ends
    obtain ⟨last, hlast, hline⟩ := Option.map_eq_some_iff.mp line
    refine ⟨by simp, ?_⟩
    rw [args.isSome_pending_add stop, Script.endsInArgument]
    by_cases comment : step.token.kind = .comment
    · -- A comment is not in a string, so on a new line it ends the argument.
      have plain : step.before.inString = false := Bool.eq_false_iff.mpr fun string => by
        simp [scanned.kind_of_inString string] at comment
      by_cases same : step.line = args.line <;>
        simp [comment, plain, same, hlast, hline, pending, eq_comm]
    · simp [comment, start]
  | _ => trivial

theorem Ends.run {reading : Reading} {s t : State} {steps earlier : List Step}
    (ends : reading.Ends earlier) (fits : reading.Fits s) (run : Walk.Run s steps t) :
    (steps.foldl after reading).Ends (steps.reverse ++ earlier) := by
  rw [← List.foldl_flip_cons_eq_append']
  refine fits.run_induction (fun seen step => step :: seen)
    (motive := fun seen reading _ => reading.Ends seen) ?_ ends run
  intro seen reading next step kept scanned turn _
  exact kept.turn turn scanned

end Statement.Reading

namespace Script

variable {lines : List Text} {line : Nat} {column : Int}

/-- An argument list that encloses a place and is opened before some of the steps seen from there is
already being read before them. -/
theorem exists_within_of_not_opensList {earlier steps : List Step} {head : Head}
    {args : Arguments} (hsteps : Walk.upTo lines line column = earlier ++ steps)
    (h : readingAt lines line column = .within head args)
    (opened : ∀ step ∈ steps, step.opensList = false) :
    ∃ begun, earlier.foldl Reading.after (.between none) = .within head begun ∧
      args = steps.foldl Arguments.add begun := by
  obtain ⟨s, run⟩ := Walk.exists_run_upTo lines line column
  rw [hsteps] at run
  obtain ⟨t, left, right⟩ := run.of_append
  have fits := Reading.fits_start.run left
  have count := countP_opensList fits right
  have read : readingAt lines line column =
      steps.foldl Reading.after (earlier.foldl Reading.after (.between none)) := by
    rw [readingAt, hsteps, List.foldl_append]
  rw [← read, h, List.countP_eq_zero.mpr (by simpa using opened)] at count
  -- Nothing is opened, so the list is open before the steps and none of them closes it.
  cases hbegun : earlier.foldl Reading.after (.between none) with
  | between head? =>
    rw [hbegun] at count
    simp only [Reading.isWithin, Bool.toNat_false, Bool.toNat_true] at count
    omega
  | within head' begun =>
    rw [hbegun] at count read
    simp only [Reading.isWithin, Bool.toNat_true] at count
    have kept : ∀ step ∈ steps, step.closesList = false := by
      simpa using List.countP_eq_zero.mp (show steps.countP Step.closesList = 0 by omega)
    rw [h, Reading.foldl_after_within kept] at read
    cases read
    exact ⟨begun, rfl, rfl⟩

theorem ends_steps {head : Head} {args : Arguments}
    (h : (Walk.steps lines).foldl Reading.after (.between none) = .within head args) :
    Reading.Ends (.within head args) (Walk.steps lines).reverse := by
  have start : Reading.Ends (.between none) [] := trivial
  have ends := start.run Reading.fits_start (Walk.run_steps lines)
  rwa [h, List.append_nil] at ends

/-- The last statement of a script that ends within an argument list. -/
theorem getLast?_statements {head : Head} {args : Arguments}
    (h : (Walk.steps lines).foldl Reading.after (.between none) = .within head args) :
    (statements lines).getLast? = some (head.statement args.flush.done false) := by
  have read := readFrom_append (.between none) (Walk.steps lines) []
  rw [List.append_nil, h] at read
  rw [statements, read, readFrom, List.getLast?_concat]

end Script

namespace Context

/-- **Arguments of the earlier lines.** Inside of an argument list that was opened on an earlier
line, and not in a string that goes on from there, a position shows all arguments written on the
earlier lines, but for one case: its line is empty, and the lines before end in an argument. -/
theorem earlier_arguments_shown_iff {lines : List Text} {line : Nat} {column : Int} {text : Text}
    (hline : lines[line]? = some text) (hcolumn : 0 ≤ column)
    (inside : (around lines ⟨line, column⟩).isInside = true)
    (opened : ∀ step ∈ Walk.steps lines, step.opensList = true →
      Position.reaches ⟨line, column⟩ lines step = true → step.line < line)
    (plain : (Walk.stateAt lines line).inString = false) :
    ∃ statement arguments, (Script.statements (lines.take line)).getLast? = some statement ∧
      statement.closed = false ∧ (around lines ⟨line, column⟩).arguments? = some arguments ∧
      (statement.arguments <+: arguments ↔
        text ≠ [] ∨ Script.endsInArgument (Walk.steps (lines.take line)).reverse = false) := by
  have hlt : line < lines.length := (List.getElem?_eq_some_iff.mp hline).1
  have hin : Position.lineIn? ⟨line, column⟩ lines = some line := Position.lineIn?_of_lt hlt column
  rw [(isInside_iff lines ⟨line, column⟩).1, Option.isSome_iff_exists] at inside
  obtain ⟨arguments, shown⟩ := inside
  obtain ⟨line', head, args, hline', hread, rfl⟩ := exists_readingAt_of_arguments? shown
  cases hin.symm.trans hline'
  obtain ⟨seen, hseen, onLine⟩ := Walk.exists_upTo_eq_append hline column
  have unopened : ∀ step ∈ seen, step.opensList = false := by
    intro step hstep
    refine Bool.eq_false_iff.mpr fun start => ?_
    obtain ⟨mem, starts⟩ := Walk.mem_upTo.mp (hseen ▸ List.mem_append_right _ hstep)
    have := opened step mem start (by simp [Position.reaches, hin, starts])
    exact Nat.ne_of_lt this (onLine step hstep)
  obtain ⟨begun, hbegun, rfl⟩ := Script.exists_within_of_not_opensList hseen hread unopened
  obtain ⟨last, pending⟩ := Script.ends_steps hbegun
  refine ⟨_, _, Script.getLast?_statements hbegun, rfl, shown, ?_⟩
  rw [← pending]
  cases text with
  | nil =>
    -- The line has no token, so the last argument of the lines before is still being read.
    rw [Walk.upTo_of_nil hline] at hseen
    cases List.append_right_eq_self.mp hseen.symm
    rw [or_iff_right (fun h => h rfl)]
    exact begun.flush_isPrefix_done_iff
  | cons c t =>
    obtain ⟨step, more, hsteps, hstep, hbefore⟩ := Walk.upTo_of_cons hline hcolumn
    cases List.append_cancel_left (hseen.symm.trans hsteps)
    -- The first token of the line ends it, whatever follows.
    have moved : step.line ≠ begun.line := by
      obtain ⟨before, hbefore, hline⟩ := Option.map_eq_some_iff.mp last
      have mem := List.mem_reverse.mp (List.mem_of_head? hbefore)
      rw [hstep, ← hline]
      exact Nat.ne_of_gt (Walk.line_lt_of_mem_steps_take mem)
    refine iff_of_true ?_ (.inl (List.cons_ne_nil c t))
    exact (begun.flush_isPrefix_add moved (hbefore ▸ plain)).trans
      ((begun.add step).done_isPrefix_foldl_add more)

/-- On a line that holds the next argument, that of the line before is shown. -/
theorem earlier_arguments_shown_before_next :
    ∃ statement arguments, (Script.statements [utf8 "set(FOO"]).getLast? = some statement ∧
      statement.closed = false ∧
      (around [utf8 "set(FOO", utf8 "BAR)"] ⟨1, 0⟩).arguments? = some arguments ∧
      (statement.arguments <+: arguments ↔
        utf8 "BAR)" ≠ [] ∨
          Script.endsInArgument (Walk.steps [utf8 "set(FOO"]).reverse = false) := by
  have hline : [utf8 "set(FOO", utf8 "BAR)"][1]? = some (utf8 "BAR)") := rfl
  exact earlier_arguments_shown_iff hline (by decide) (by decide +kernel) (by decide +kernel)
    (by decide +kernel)

/-- On an empty line the argument that ends the line before is not shown. -/
theorem earlier_argument_missing_on_empty_line :
    ¬ ∀ (lines : List Text) (line : Nat) (column : Int) (text : Text), lines[line]? = some text →
      0 ≤ column → (around lines ⟨line, column⟩).isInside = true →
      (∀ step ∈ Walk.steps lines, step.opensList = true →
        Position.reaches ⟨line, column⟩ lines step = true → step.line < line) →
      (Walk.stateAt lines line).inString = false →
      ∃ statement arguments, (Script.statements (lines.take line)).getLast? = some statement ∧
        (around lines ⟨line, column⟩).arguments? = some arguments ∧
        statement.arguments <+: arguments := by
  intro claimed
  obtain ⟨statement, arguments, last, shown, begins⟩ := claimed [utf8 "set(FOO", []] 1 0 [] rfl
    (by decide) (by decide +kernel) (by decide +kernel) (by decide +kernel)
  have read : (Script.statements [utf8 "set(FOO"]).getLast? =
      some ⟨Command.ofName? (utf8 "set"), utf8 "set", 0, [utf8 "FOO"], false⟩ := by decide +kernel
  have none : (around [utf8 "set(FOO", []] ⟨1, 0⟩).arguments? = some [] := by decide +kernel
  cases last.symm.trans read
  cases shown.symm.trans none
  revert begins
  decide

end Context

end CMakeSense
