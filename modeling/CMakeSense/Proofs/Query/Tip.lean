import CMakeSense.Proofs.Query.Enclosing
import CMakeSense.Query.CallTip

/-! Call tips against the command around the position. Following tokens for a call tip
(`CallTip.Trail`) is a third way through the walk, in step with reading statements
(`CallTip.Trail.Tracks`). Inside of an argument list the tip is therefore that of the command,
name and arguments that the context of the position shows; at the parenthesis that closes a list it
is that of the whole statement, and elsewhere there is none. -/

namespace CMakeSense.CallTip

open Statement

/-- What a query gives for a call: a tip with the signature of the call, or nothing where none is
known. -/
def Answers (source : Source) (command : Option Command) (name : Text) (arguments : List Text)
    (endSpan? : Option Span) : Option CallTip → Prop
  | none => Signature.find? source command name arguments = none
  | some tip => ∃ signature, Signature.find? source command name arguments = some signature ∧
      tip.name = name ∧ tip.command = command ∧ tip.subcommand? = signature.subcommand? ∧
      tip.parameters = signature.slots ∧ tip.endSpan? = endSpan? ∧
      tip.active? = activeParameter? tip.parameters arguments.length

/-- A call agrees with a statement as far as it has been read. -/
structure Call.Agrees (call : Call) (head : Head) (args : Arguments) (endSpan? : Option Span) :
    Prop where
  name : call.name = head.name
  command : call.command = head.command
  arguments : call.arguments = args
  endSpan : call.endSpan? = endSpan?

/-- What following the tokens has found agrees with what has been read of the statements. -/
def Trail.Tracks (trail : Trail) : Reading → Prop
  | .between head? => trail.isOpen = false ∧ ∀ head ∈ head?, trail.name = head.name
  | .within head args =>
    trail.isOpen = true ∧ ∃ call, trail.call? = some call ∧ call.Agrees head args none

namespace Call.Agrees

variable {call : Call} {head : Head} {args : Arguments} {step : Step}

theorem follow_of_stays (agrees : call.Agrees head args none) (stop : step.closesList = false) :
    (call.follow step).Agrees head (args.add step) none := by
  obtain ⟨name, command, rfl, endSpan⟩ := agrees
  unfold Call.follow
  simp only
  split
  · exact ⟨name, command, rfl, endSpan⟩
  · split
    · next stops => exact absurd stops (by simpa [Step.closesList] using stop)
    · exact ⟨name, command, rfl, endSpan⟩

theorem follow_of_closes (agrees : call.Agrees head args none) (stop : step.closesList = true)
    (next : step.token.trigger.has .parameterNext = false) :
    (call.follow step).Agrees head (args.add step) (some step.span) := by
  obtain ⟨name, command, rfl, _⟩ := agrees
  simp only [Step.closesList] at stop
  simp only [Call.follow, next, stop]
  exact ⟨name, command, rfl, rfl⟩

/-- The tip for a call is that of the statement. -/
theorem answers {endSpan? : Option Span} (agrees : call.Agrees head args endSpan?)
    (source : Source) : Answers source head.command head.name args.done endSpan?
      ((Signature.find? source call.command call.name call.arguments.done).map (ofCall call)) := by
  obtain ⟨name, command, rfl, rfl⟩ := agrees
  rw [← name, ← command]
  cases found : Signature.find? source call.command call.name call.arguments.done with
  | none => exact found
  | some signature => exact ⟨signature, found, rfl, rfl, rfl, rfl, rfl, rfl⟩

end Call.Agrees

namespace Trail

variable {trail : Trail} {step : Step} {reading next : Reading}

/-- One token keeps both ways in step. -/
theorem Tracks.follow (tracks : trail.Tracks reading) (turn : Reading.Turn step reading next)
    (fits : next.Fits step.after) : (trail.follow step).Tracks next := by
  cases turn with
  | opens kind start stop =>
    obtain ⟨closed, name⟩ := tracks
    obtain ⟨_, _, command⟩ := fits
    refine ⟨?_, trail.openCall step, ?_, name _ rfl, command.symm, rfl, rfl⟩ <;>
      simp_all [Trail.follow, Step.opensList, TokenKind.isWord]
  | closes start stop next =>
    obtain ⟨isOpen, _⟩ := tracks
    simp_all [Trail.follow, Tracks, Step.closesList]
  | names word start stop =>
    obtain ⟨closed, name⟩ := tracks
    simp_all [Trail.follow, Tracks, Head.ofStep]
  | passes word start stop kept =>
    obtain ⟨closed, name⟩ := tracks
    simp_all [Trail.follow, Tracks, Step.opensList]
  | stays start stop =>
    obtain ⟨isOpen, call, hcall, agrees⟩ := tracks
    refine ⟨?_, call.follow step, ?_, agrees.follow_of_stays stop⟩ <;>
      simp_all [Trail.follow, Step.closesList]

/-- A run keeps both ways in step. -/
theorem Tracks.run {s t : State} {steps : List Step} (tracks : trail.Tracks reading)
    (fits : reading.Fits s) (run : Walk.Run s steps t) :
    (steps.foldl Trail.follow trail).Tracks (steps.foldl Reading.after reading) := by
  refine fits.run_induction Trail.follow
    (motive := fun trail reading _ => trail.Tracks reading) ?_ tracks run
  intro trail reading next step kept _ turn fits
  exact kept.follow turn fits

theorem tracks_start : Trail.start.Tracks (.between none) := ⟨rfl, nofun⟩

end Trail

variable {source : Source} {line : Nat} {column : Int} {p : Position}

/-- The trail at a place keeps step with what has been read there. -/
theorem tracks_upTo (lines : List Text) (line : Nat) (column : Int) :
    ((Walk.upTo lines line column).foldl Trail.follow .start).Tracks
      (Script.readingAt lines line column) := by
  obtain ⟨s, run⟩ := Walk.exists_run_upTo lines line column
  exact Trail.tracks_start.run Reading.fits_start run

/-- The tip for the last call of a trail. -/
theorem atLine?_of_call {call : Call} (source : Source) (line : Nat) (column : Int)
    (shown : ((Walk.upTo source.lines line column).foldl Trail.follow .start).isOpen = true ∨
      closesAt (Walk.upTo source.lines line column) line column = true)
    (hcall : ((Walk.upTo source.lines line column).foldl Trail.follow .start).call? = some call) :
    atLine? source line column =
      (Signature.find? source call.command call.name call.arguments.done).map (ofCall call) := by
  simp only [atLine?, Bool.or_eq_true, shown, if_true, hcall, Option.bind_eq_bind,
    Option.bind_some]
  cases Signature.find? source call.command call.name call.arguments.done <;> rfl

/-- Inside of an argument list the tip is that of the statement as far as it has been read. -/
theorem atLine?_of_within {head : Head} {args : Arguments}
    (h : Script.readingAt source.lines line column = .within head args) :
    Answers source head.command head.name args.done none (atLine? source line column) := by
  have tracks := tracks_upTo source.lines line column
  rw [h] at tracks
  obtain ⟨isOpen, call, hcall, agrees⟩ := tracks
  rw [atLine?_of_call source line column (.inl isOpen) hcall]
  exact agrees.answers source

/-- Outside of argument lists there is no tip but at a parenthesis that closes one. -/
theorem atLine?_of_between {head? : Option Head}
    (h : Script.readingAt source.lines line column = .between head?)
    (closes : closesAt (Walk.upTo source.lines line column) line column = false) :
    atLine? source line column = none := by
  have tracks := tracks_upTo source.lines line column
  rw [h] at tracks
  simp [atLine?, tracks.1, closes]

/-- Before a token that closes an argument list the list is being read. -/
theorem exists_within_of_closesList {steps : List Step} {step : Step} {t : State}
    (run : Walk.Run .start (steps ++ [step]) t) (stop : step.closesList = true) :
    ∃ head args, steps.foldl Reading.after (.between none) = .within head args ∧
      step.token.trigger.has .parameterNext = false := by
  obtain ⟨s, left, right⟩ := run.of_append
  have fits := Reading.fits_start.run left
  cases right with
  | cons scanned _ =>
    obtain ⟨_, _, turn, _⟩ := fits.turn scanned
    generalize steps.foldl Reading.after (.between none) = reading at turn
    cases turn with
    | closes _ _ next => exact ⟨_, _, rfl, next⟩
    | _ => simp_all

/-- At the parenthesis that closes an argument list the tip is that of the whole statement. -/
theorem atLine?_of_closes {step : Step} {steps : List Step}
    (hsteps : Walk.upTo source.lines line column = steps ++ [step])
    (hline : step.line = line) (hcolumn : (step.token.start : Int) = column)
    (stop : step.closesList = true) :
    ∃ (head : Head) (arguments : List Text),
      (Script.statements source.lines)[steps.countP Step.closesList]? =
        some (head.statement arguments true) ∧
      Answers source head.command head.name arguments (some step.span)
        (atLine? source line column) := by
  obtain ⟨t, run⟩ := Walk.exists_run_upTo source.lines line column
  rw [hsteps] at run
  obtain ⟨head, args, hread, next⟩ := exists_within_of_closesList run stop
  obtain ⟨s, left, _⟩ := run.of_append
  refine ⟨head, (args.add step).done, ?_, ?_⟩
  · obtain ⟨rest, hrest⟩ := Walk.upTo_isPrefix source.lines line column
    rw [Script.statements, ← hrest, hsteps, List.append_assoc, readFrom_append, hread,
      ← length_completed Reading.fits_start left, List.getElem?_append_right (Nat.le_refl _),
      Nat.sub_self, List.singleton_append, readFrom_cons]
    simp [Reading.completes?, stop]
  · have tracks := Trail.tracks_start.run Reading.fits_start left
    rw [hread] at tracks
    obtain ⟨isOpen, call, hcall, agrees⟩ := tracks
    have closes : closesAt (Walk.upTo source.lines line column) line column = true := by
      rw [Step.closesList] at stop
      simp [closesAt, hsteps, stop, hline, hcolumn]
    have hcall' : ((Walk.upTo source.lines line column).foldl Trail.follow .start).call? =
        some (call.follow step) := by
      simp [hsteps, Trail.follow, isOpen, hcall]
    rw [atLine?_of_call source line column (.inr closes) hcall']
    exact (agrees.follow_of_closes stop next).answers source

theorem around?_eq_atLine? (h : p.lineIn? source.lines = some line) :
    around? source p = atLine? source line p.column := by
  simp [around?, h]

theorem closesAt_eq_true_iff {lines : List Text} (h : p.lineIn? lines = some line) :
    closesAt (Walk.upTo lines line p.column) line p.column = true ↔
      ∃ step, p.IsAt lines step ∧ step.closesList = true := by
  constructor
  · intro closes
    unfold closesAt at closes
    split at closes
    · next step hlast =>
      simp only [Bool.and_eq_true, decide_eq_true_eq] at closes
      obtain ⟨⟨stop, rfl⟩, hcolumn⟩ := closes
      have seen := (Walk.mem_upTo.mp (List.mem_of_getLast? hlast)).1
      exact ⟨step, ⟨seen, h, hcolumn⟩, stop⟩
    · cases closes
  · rintro ⟨step, ⟨hstep, hline, hcolumn⟩, stop⟩
    cases h.symm.trans hline
    rw [Step.closesList] at stop
    simp [closesAt, Walk.getLast?_upTo hstep rfl hcolumn, stop, hcolumn]

/-- **The call tip at a position is that of the command around it.** Inside of an argument list it
has the name, the command and the arguments that the context of the position shows, and there is
none exactly where no signature is known for these. Outside of argument lists there is a tip only
at a parenthesis that closes one: that of the statement closed there, with all of its arguments and
the span of the parenthesis. -/
theorem tip_agrees_context (source : Source) (p : Position) :
    ((Context.around source.lines p).isInside = true →
      ∃ arguments, (Context.around source.lines p).arguments? = some arguments ∧
        Answers source (Context.around source.lines p).command
          (Context.around source.lines p).name arguments none (around? source p)) ∧
    ((Context.around source.lines p).isInside = false →
      (∀ step, p.IsAt source.lines step → step.closesList = true →
        ∃ k statement, p.closed source.lines = k + 1 ∧
          (Script.statements source.lines)[k]? = some statement ∧ statement.closed = true ∧
          Answers source statement.command statement.name statement.arguments (some step.span)
            (around? source p)) ∧
      ((∀ step, p.IsAt source.lines step → step.closesList = false) →
        around? source p = none)) := by
  refine ⟨fun inside => ?_, fun outside => ⟨fun step hstep stop => ?_, fun none => ?_⟩⟩
  · rw [(Context.isInside_iff source.lines p).1, Option.isSome_iff_exists] at inside
    obtain ⟨arguments, shows⟩ := inside
    obtain ⟨line, head, args, hline, hread, rfl⟩ := Context.exists_readingAt_of_arguments? shows
    obtain ⟨_, _, command, name⟩ := Context.atLine_of_within hread
    refine ⟨args.done, shows, ?_⟩
    rw [Context.around_eq_atLine hline, command, name, around?_eq_atLine? hline]
    exact atLine?_of_within hread
  · -- The token at the position is the last one seen, and the list is read up to it.
    obtain ⟨mem, hline, hcolumn⟩ := hstep
    have last := Walk.getLast?_upTo mem rfl hcolumn
    obtain ⟨steps, hsteps⟩ := List.getLast?_eq_some_iff.mp last
    obtain ⟨head, arguments, hstatement, answers⟩ := atLine?_of_closes hsteps rfl hcolumn stop
    refine ⟨_, _, ?_, hstatement, rfl, ?_⟩
    · rw [Position.closed_eq hline, hsteps, List.countP_append, List.countP_singleton, if_pos stop]
    · rw [around?_eq_atLine? hline]
      exact answers
  · cases hline : p.lineIn? source.lines with
    | none => simp [around?, hline]
    | some line =>
      rw [around?_eq_atLine? hline]
      rw [Context.around_eq_atLine hline] at outside
      cases hread : Script.readingAt source.lines line p.column with
      | between head? =>
        refine atLine?_of_between hread (Bool.eq_false_iff.mpr fun closes => ?_)
        obtain ⟨step, hstep, stop⟩ := (closesAt_eq_true_iff hline).mp closes
        simp [none step hstep] at stop
      | within head args =>
        obtain ⟨_, depth, _⟩ := Context.atLine_of_within hread
        simp [Context.isInside, Nat.ne_of_gt depth] at outside

/-- At the last argument of a call and at the parenthesis that closes it. -/
theorem tip_agrees_context_along_call :
    ∃ source : Source, source.lines = [utf8 "set(A B)"] ∧
      (around? source ⟨0, 6⟩).isSome = true ∧ (around? source ⟨0, 7⟩).isSome = true ∧
      Answers source (Command.ofName? (utf8 "set")) (utf8 "set") [utf8 "A"] none
        (around? source ⟨0, 6⟩) ∧
      Answers source (Command.ofName? (utf8 "set")) (utf8 "set") [utf8 "A", utf8 "B"]
        (some ⟨0, 7, 0, 8⟩) (around? source ⟨0, 7⟩) := by
  have agrees := tip_agrees_context ⟨[], [utf8 "set(A B)"], .absent, ⟨false, []⟩⟩
  refine ⟨⟨[], [utf8 "set(A B)"], .absent, ⟨false, []⟩⟩, rfl, by decide +kernel,
    by decide +kernel, ?_, ?_⟩
  · have shown : (Context.around [utf8 "set(A B)"] ⟨0, 6⟩).command = Command.ofName? (utf8 "set") ∧
        (Context.around [utf8 "set(A B)"] ⟨0, 6⟩).name = utf8 "set" ∧
        (Context.around [utf8 "set(A B)"] ⟨0, 6⟩).arguments? = some [utf8 "A"] := by decide +kernel
    obtain ⟨arguments, shows, answers⟩ := (agrees ⟨0, 6⟩).1 (by decide +kernel)
    cases shows.symm.trans shown.2.2
    rwa [shown.1, shown.2.1] at answers
  · obtain ⟨step, mem, line, start, stop, span⟩ : ∃ step ∈ Walk.steps [utf8 "set(A B)"],
        some 0 = some step.line ∧ (step.token.start : Int) = 7 ∧ step.closesList = true ∧
          step.span = ⟨0, 7, 0, 8⟩ := by decide +kernel
    have only : (Script.statements [utf8 "set(A B)"])[0]? = some ⟨Command.ofName? (utf8 "set"),
        utf8 "set", 0, [utf8 "A", utf8 "B"], true⟩ := by decide +kernel
    have first : Position.closed ⟨0, 7⟩ [utf8 "set(A B)"] = 0 + 1 := by decide +kernel
    obtain ⟨k, statement, closed, read, _, answers⟩ :=
      ((agrees ⟨0, 7⟩).2 (by decide +kernel)).1 step ⟨mem, line, start⟩ stop
    cases closed.symm.trans first
    cases read.symm.trans only
    rwa [span] at answers

end CMakeSense.CallTip
