import CMakeSense.Proofs.Script.Shift
import CMakeSense.Proofs.Token.Blank

/-! Layout. A run of blanks outside of argument lists, or directly inside one, can be any other run,
a line end, or a comment up to a line end, without a change in what the statements say. The reader
takes all of them for the end of the argument before (`Statement.Reading.separated`), though it
learns of a line end only from the next token; and what follows is read in the same way on the next
line. -/

namespace CMakeSense

/-- What a statement says, wherever it stands. -/
def Statement.content (statement : Statement) : Option Command × Text × List Text × Bool :=
  (statement.command, statement.name, statement.arguments, statement.closed)

/-- A run of blanks. -/
structure Text.Blank (t : Text) : Prop where
  nonempty : t ≠ []
  blank : ∀ c ∈ t, Ascii.isSpace c = true

theorem Text.Blank.beginsBlank {ws : Text} (h : ws.Blank) (rest : Text) :
    BeginsBlank (ws ++ rest) := by
  obtain ⟨c, t, rfl⟩ := List.exists_cons_of_ne_nil h.nonempty
  exact beginsBlank_cons (h.blank c List.mem_cons_self)

namespace Arguments

/-- The arguments once the one that is being read has been ended on a line. -/
def separated (line : Nat) (args : Arguments) : Arguments := { args.flush with line }

theorem flush_separated (line : Nat) (args : Arguments) :
    (args.separated line).flush = args.separated line := by
  obtain ⟨ended, begun, line⟩ := args
  cases begun <;> rfl

theorem separated_separated (line other : Nat) (args : Arguments) :
    (args.separated other).separated line = args.separated line := by
  rw [separated, flush_separated]
  rfl

theorem separated_line (args : Arguments) : args.separated args.line = args.flush := by
  rw [separated, ← args.line_flush]

variable {step : Step}

/-- A line end outside of strings separates arguments. -/
theorem enterLine_of_ne {args : Arguments} (moved : step.line ≠ args.line)
    (plain : step.before.inString = false) : args.enterLine step = args.separated step.line := by
  simp [enterLine, moved, plain, separated]

theorem enterLine_separated (plain : step.before.inString = false) (line : Nat)
    (args : Arguments) : (args.separated line).enterLine step = args.separated step.line := by
  by_cases same : step.line = line
  · subst same
    exact if_pos rfl
  · rw [enterLine_of_ne same plain, separated_separated]

theorem add_congr {args other : Arguments} (h : args.enterLine step = other.enterLine step) :
    args.add step = other.add step := by
  rw [add, add, h]

/-- So do blanks directly inside the list. -/
theorem add_of_blank (kind : step.token.kind = .whiteSpace) (depth : step.before.depth.val = 1)
    (plain : step.before.inString = false) (args : Arguments) :
    args.add step = args.separated step.line := by
  have entered : (args.enterLine step).flush = args.separated step.line := by
    by_cases same : step.line = args.line
    · rw [enterLine, if_pos same, same, separated_line]
    · rw [enterLine_of_ne same plain, flush_separated]
  rw [add_eq_flush (.inr (Step.separates_iff.mpr ⟨kind, depth⟩)), entered]

end Arguments

namespace Statement

namespace Reading

/-- What has been read once an argument has been ended on a line. -/
def separated (line : Nat) : Reading → Reading
  | .between head? => .between head?
  | .within head args => .within head (args.separated line)

/-- The last token of the argument list that is being read stands on line `n` or above. -/
def EndsBy (n : Nat) : Reading → Prop
  | .between _ => True
  | .within _ args => args.line ≤ n

theorem separated_separated (line other : Nat) (reading : Reading) :
    (reading.separated other).separated line = reading.separated line := by
  cases reading with
  | between head? => rfl
  | within head args => rw [separated, separated, Arguments.separated_separated]; rfl

theorem endsBy_separated (n : Nat) (reading : Reading) : (reading.separated n).EndsBy n := by
  cases reading with
  | between head? => trivial
  | within head args => exact Nat.le_refl n

variable {reading : Reading} {step : Step}

theorem endsBy_after (reading : Reading) (step : Step) : (reading.after step).EndsBy step.line := by
  cases reading with
  | between head? =>
    rw [after]
    unfold afterOutside
    split
    · trivial
    · trivial
    · split
      · split
        · exact Nat.le_refl _
        · trivial
      · trivial
    · trivial
    · trivial
    · trivial
  | within head args =>
    rw [after]
    split
    · trivial
    · exact Nat.le_of_eq (args.line_add step)

theorem EndsBy.mono {n m : Nat} (h : reading.EndsBy n) (le : n ≤ m) : reading.EndsBy m := by
  cases reading with
  | between head? => trivial
  | within head args => exact Nat.le_trans h le

theorem endsBy_foldl_after {n : Nat} {steps : List Step} (h : reading.EndsBy n)
    (lines : ∀ step ∈ steps, step.line ≤ n) : (steps.foldl after reading).EndsBy n := by
  induction steps generalizing reading with
  | nil => exact h
  | cons step steps ih =>
    refine ih ((endsBy_after reading step).mono (lines step List.mem_cons_self)) ?_
    exact fun next member => lines next (List.mem_cons_of_mem step member)

/-- Blanks directly inside a list, or outside of any, separate arguments. -/
theorem after_of_blank (fits : reading.Fits step.before) (kind : step.token.kind = .whiteSpace)
    (stop : step.closesList = false) (depth : step.before.depth.val ≤ 1)
    (plain : step.before.inString = false) : reading.after step = reading.separated step.line := by
  cases reading with
  | between head? => exact after_of_rests (.inl kind)
  | within head args =>
    have inner : step.before.depth.val = 1 := Nat.le_antisymm depth fits.1
    rw [after_of_stays stop, Arguments.add_of_blank kind inner plain]
    rfl

/-- A comment behind what separates arguments changes nothing. -/
theorem after_of_comment (kind : step.token.kind = .comment) (stop : step.closesList = false)
    (plain : step.before.inString = false) (reading : Reading) :
    (reading.separated step.line).after step = reading.separated step.line := by
  cases reading with
  | between head? => exact after_of_rests (.inr kind)
  | within head args =>
    rw [separated, after_of_stays stop, Arguments.add_of_comment kind stop,
      Arguments.enterLine_separated plain]

theorem completes?_of_not_closesList (stop : step.closesList = false) (reading : Reading) :
    reading.completes? step = none := by
  cases reading with
  | between head? => rfl
  | within head args => simp [completes?, stop]

end Reading

theorem readFrom_cons_of_not_closesList {step : Step} (stop : step.closesList = false)
    (reading : Reading) (steps : List Step) :
    readFrom reading (step :: steps) = readFrom (reading.after step) steps := by
  rw [readFrom_cons, Reading.completes?_of_not_closesList stop]
  rfl

/-- Steps that read alike on the same lines can stand for each other. -/
theorem readFrom_append_of_shifted {xs ys : List Step} (h : List.Forall₂ (Step.Shifted 0) xs ys)
    (reading : Reading) (steps : List Step) : readFrom reading (ys ++ steps) =
      completed reading xs ++ readFrom (xs.foldl Reading.after reading) steps := by
  have before := completed_shift h reading
  have there := foldl_after_shift h reading
  rw [Reading.shift_zero] at before there
  rw [readFrom_append, before, there, Reading.shift_zero]
  congr 1
  exact List.map_id _

/-- At a token on a later line outside of strings, and at the end, the argument before has ended. -/
theorem readFrom_separated {reading : Reading} {n : Nat} (endsBy : reading.EndsBy n)
    {steps : List Step}
    (later : ∀ step ∈ steps.head?, n < step.line ∧ step.before.inString = false) (line : Nat) :
    readFrom (reading.separated line) steps = readFrom reading steps := by
  cases reading with
  | between head? => rfl
  | within head args =>
    cases steps with
    | nil =>
      rw [Reading.separated, readFrom, readFrom, Arguments.flush_separated]
      rfl
    | cons step steps =>
      obtain ⟨below, plain⟩ := later step rfl
      have moved : step.line ≠ args.line := Nat.ne_of_gt (Nat.lt_of_le_of_lt endsBy below)
      have same : (args.separated line).add step = args.add step := by
        apply Arguments.add_congr
        rw [Arguments.enterLine_separated plain, Arguments.enterLine_of_ne moved plain]
      rw [Reading.separated, readFrom, readFrom, same]

/-- What a word says, wherever it stands. -/
def Head.label (head : Head) : Option Command × Text := (head.command, head.name)

/-- The readings differ at most in the line of the statement that is being read. -/
inductive Reading.Twins : Reading → Reading → Prop where
  | between {head? other? : Option Head} (h : head?.map Head.label = other?.map Head.label) :
      Twins (.between head?) (.between other?)
  | within {head other : Head} {args : Arguments} (h : head.label = other.label) :
      Twins (.within head args) (.within other args)

namespace Reading.Twins

variable {reading other : Reading}

theorem after (h : Twins reading other) (step : Step) :
    Twins (reading.after step) (other.after step) := by
  cases h with
  | @between head? other? same =>
    rw [Reading.after, Reading.after]
    unfold afterOutside
    split
    · exact .between rfl
    · exact .between rfl
    · split
      · cases head? with
        | none =>
          cases other? with
          | none => exact .between rfl
          | some other => cases same
        | some head =>
          cases other? with
          | none => cases same
          | some other => exact .within (Option.some.inj same)
      · exact .between rfl
    · exact .between same
    · exact .between same
    · exact .between rfl
  | within same =>
    rw [Reading.after, Reading.after]
    split
    · exact .between rfl
    · exact .within same

theorem content_statement {head other : Head} (h : head.label = other.label)
    (arguments : List Text) (closed : Bool) :
    (head.statement arguments closed).content = (other.statement arguments closed).content := by
  obtain ⟨command, name⟩ := Prod.mk.inj h
  simp only [content, Head.statement, command, name]

/-- Twins read statements that say the same. -/
theorem content_readFrom (h : Twins reading other) (steps : List Step) :
    (readFrom reading steps).map content = (readFrom other steps).map content := by
  induction steps generalizing reading other with
  | nil =>
    cases h with
    | between => rfl
    | within same => simp only [readFrom, List.map_cons, List.map_nil, content_statement same]
  | cons step steps ih =>
    rw [readFrom_cons, readFrom_cons, List.map_append, List.map_append, ih (h.after step)]
    congr 1
    cases h with
    | between => rfl
    | within same =>
      simp only [completes?]
      split
      · simp only [Option.toList_some, List.map_cons, List.map_nil, content_statement same]
      · rfl

end Reading.Twins

theorem Reading.twins_shift (reading : Reading) (n : Nat) :
    Twins ((reading.separated n).shift 1) (reading.separated (n + 1)) := by
  cases reading with
  | between head? =>
    refine .between ?_
    rw [Option.map_map]
    rfl
  | within head args => exact .within rfl

end Statement

namespace Walk

/-- A line whose tokens begin with `xs`. -/
theorem stepsFrom_cons_of_moves {line : Nat} {s t : State} {text rest : Text} {o : Nat}
    {xs : List Move} (moves : Scan.moves s text = xs ++ Scan.movesFrom t o rest)
    (last : Scan.final s xs = t) (lines : List Text) :
    stepsFrom line s (text :: lines) =
      xs.map (Step.ofMove line) ++ stepsAt line t o rest lines := by
  have state : Scan.stateAfter s text = Scan.final t (Scan.movesFrom t o rest) := by
    rw [Scan.stateAfter, moves, Scan.final, List.foldl_append]
    exact congrArg (Scan.final · _) last
  rw [stepsFrom, state, moves, List.map_append, List.append_assoc]
  rfl

/-- The offset at which a rest of a line starts does not show in what is read. -/
theorem forall₂_stepsAt (line : Nat) (s : State) (o p : Nat) (rest : Text)
    (lines : List Text) : List.Forall₂ (Step.Shifted 0) (stepsAt line s o rest lines)
      (stepsAt line s p rest lines) := by
  obtain ⟨moves, last⟩ := Scan.forall₂_movesFrom (.refl s) o p rest
  refine List.rel_append ?_ (forall₂_stepsFrom last (line + 1) 0 lines)
  rw [List.forall₂_map_left_iff, List.forall₂_map_right_iff]
  exact moves.imp fun a b alike => alike.shifted line 0

theorem before_of_head?_stepsFrom {line : Nat} {s : State} {lines : List Text} {step : Step}
    (h : step ∈ (stepsFrom line s lines).head?) : step.before = s := by
  induction lines generalizing line with
  | nil => cases h
  | cons text lines ih =>
    cases text with
    | nil =>
      have empty : stepsFrom line s ([] :: lines) = stepsFrom (line + 1) s lines := by
        rw [stepsFrom_cons, stepsAt_nil]
      rw [empty] at h
      exact ih h
    | cons c t =>
      rw [stepsFrom, Scan.moves_eq, Scan.movesFrom] at h
      cases h
      rfl

/-- A script around one of its lines. -/
theorem steps_insert (pre : List Text) (line : Text) (post : List Text) :
    steps (pre ++ line :: post) = steps pre ++
      stepsFrom pre.length (pre.foldl Scan.stateAfter .start) (line :: post) := by
  have parts := stepsFrom_append 0 .start pre (line :: post)
  rwa [Nat.zero_add] at parts

end Walk

namespace Script

open Statement

/-- The reader at a place of a line where a run of blanks begins: `completed` are the statements
before it, `reading` is what has been read of the next one, and the state there is `state`. -/
structure Gap (pre : List Text) (left : Text) where
  completed : List Statement
  reading : Reading
  state : State
  fits : reading.Fits state
  endsBy : reading.EndsBy pre.length
  inComment : state.inComment = false
  inString : state.inString = false
  depth : state.depth.val ≤ 1
  /-- Any other run of blanks, or the end of the line, leaves what stands before it as it is. -/
  statements_eq : ∀ (rest : Text) (lines : List Text), rest.BeginsBlank →
    statements (pre ++ (left ++ rest) :: lines) = completed ++
      readFrom reading (Walk.stepsAt pre.length state left.length rest lines)

namespace Gap

variable {pre : List Text} {left : Text} (gap : Gap pre left)

/-- What the statements say when `lines` follow the gap. -/
def contents (lines : List Text) : List (Option Command × Text × List Text × Bool) :=
  (gap.completed ++ readFrom (gap.reading.separated pre.length)
    (Walk.stepsFrom pre.length gap.state lines)).map content

/-- The step of a run of blanks in the gap. -/
def blankStep (ws l : Text) : Step := Step.ofMove pre.length
  ⟨(Lexeme.blanks gap.state (ws ++ l)).token left.length, ws ++ l, gap.state, gap.state⟩

theorem readFrom_blankStep (ws l : Text) (steps : List Step) :
    readFrom gap.reading (gap.blankStep ws l :: steps) =
      readFrom (gap.reading.separated pre.length) steps := by
  have stop : (gap.blankStep ws l).closesList = false := by
    simp only [blankStep, Step.closesList, Step.ofMove, Lexeme.token, Lexeme.blanks]
    split <;> rfl
  have fits : gap.reading.Fits (gap.blankStep ws l).before := gap.fits
  rw [readFrom_cons_of_not_closesList stop,
    Reading.after_of_blank fits rfl stop gap.depth gap.inString]
  rfl

theorem stepsAt_blank {ws l : Text} (blank : ws.Blank)
    (ends : ∀ c ∈ l.head?, Ascii.isSpace c = false) (lines : List Text) :
    Walk.stepsAt pre.length gap.state left.length (ws ++ l) lines = gap.blankStep ws l ::
      Walk.stepsAt pre.length gap.state (left.length + ws.length) l lines := by
  rw [Walk.stepsAt, Scan.movesFrom_blanks gap.inComment gap.inString blank.nonempty blank.blank
    ends]
  rfl

/-- Any run of blanks in the gap. -/
theorem contents_of_blank {ws l : Text} (blank : ws.Blank)
    (ends : ∀ c ∈ l.head?, Ascii.isSpace c = false) (post : List Text) :
    (statements (pre ++ (left ++ (ws ++ l)) :: post)).map content = gap.contents (l :: post) := by
  have moved := readFrom_append_of_shifted (Walk.forall₂_stepsAt pre.length gap.state 0
    (left.length + ws.length) l post) (gap.reading.separated pre.length) []
  rw [← readFrom_append, List.append_nil, List.append_nil, ← Walk.stepsFrom_cons] at moved
  rw [gap.statements_eq _ _ (blank.beginsBlank l), gap.stepsAt_blank blank ends,
    gap.readFrom_blankStep, moved, contents]

/-- The lines behind the gap read the same on the next line, once the argument before has ended. -/
theorem contents_of_nextLine {reading : Reading}
    (same : reading.separated (pre.length + 1) = gap.reading.separated (pre.length + 1))
    (endsBy : reading.EndsBy pre.length) (lines : List Text) :
    (gap.completed ++ readFrom reading
      (Walk.stepsFrom (pre.length + 1) gap.state lines)).map content = gap.contents lines := by
  have later : ∀ step ∈ (Walk.stepsFrom (pre.length + 1) gap.state lines).head?,
      pre.length < step.line ∧ step.before.inString = false := by
    intro step first
    have member := List.mem_of_mem_head? first
    rw [Walk.before_of_head?_stepsFrom first]
    exact ⟨(Walk.line_of_mem_stepsFrom member).1, gap.inString⟩
  have below := readFrom_shift (Walk.forall₂_stepsFrom (.refl gap.state) pre.length 1 lines)
    (gap.reading.separated pre.length)
  have twins := (gap.reading.twins_shift pre.length).content_readFrom
    (Walk.stepsFrom (pre.length + 1) gap.state lines)
  rw [below, List.map_map] at twins
  rw [contents, List.map_append, List.map_append,
    ← readFrom_separated endsBy later (pre.length + 1), same, ← twins]
  rfl

/-- A line end in the gap. -/
theorem contents_of_lineEnd (lines : List Text) :
    (statements (pre ++ left :: lines)).map content = gap.contents lines := by
  have read := gap.statements_eq [] lines Text.beginsBlank_nil
  rw [List.append_nil, Walk.stepsAt_nil] at read
  rw [read]
  exact gap.contents_of_nextLine rfl gap.endsBy lines

/-- A comment up to a line end in the gap. -/
theorem contents_of_comment {ws body : Text} (blank : ws.Blank)
    (line : ∀ n, ¬ Lexeme.commentOpener n <+: body) (lines : List Text) :
    (statements (pre ++ (left ++ (ws ++ Ascii.hash :: body)) :: lines)).map content =
      gap.contents lines := by
  have ends : ∀ c ∈ (Ascii.hash :: body).head?, Ascii.isSpace c = false := by
    rintro c ⟨⟩
    rfl
  let step := Step.ofMove pre.length ⟨(Lexeme.comment gap.state body).token
    (left.length + ws.length), Ascii.hash :: body, gap.state, gap.state⟩
  have kind : step.token.kind = .comment := Lexeme.comment_kind ..
  have stop : step.closesList = false := by
    have none := Lexeme.commentLevel?_eq_none line
    simp [step, Step.closesList, Step.ofMove, Lexeme.token, Lexeme.comment, none]
  have steps : Walk.stepsAt pre.length gap.state (left.length + ws.length)
      (Ascii.hash :: body) lines = step :: Walk.stepsFrom (pre.length + 1) gap.state lines := by
    rw [Walk.stepsAt, Scan.movesFrom_lineComment gap.inComment gap.inString line]
    rfl
  have passed : (gap.reading.separated pre.length).after step =
      gap.reading.separated pre.length :=
    Reading.after_of_comment kind stop gap.inString gap.reading
  rw [gap.statements_eq _ _ (blank.beginsBlank _), gap.stepsAt_blank blank ends,
    gap.readFrom_blankStep, steps, readFrom_cons_of_not_closesList stop, passed]
  exact gap.contents_of_nextLine (Reading.separated_separated ..) (Reading.endsBy_separated ..)
    lines

end Gap

/-- The token of a line that a step stands for. -/
theorem exists_move_of_mem_steps {pre post : List Text} {text : Text} {step : Step}
    (member : step ∈ Walk.steps (pre ++ text :: post)) (line : step.line = pre.length) :
    ∃ move ∈ Scan.moves (pre.foldl Scan.stateAfter .start) text,
      step = Step.ofMove pre.length move := by
  rw [Walk.steps_insert, Walk.stepsFrom] at member
  rcases List.mem_append.mp member with above | member
  · have := (Walk.line_of_mem_stepsFrom above).2
    omega
  rcases List.mem_append.mp member with here | below
  · obtain ⟨move, hmove, rfl⟩ := List.mem_map.mp here
    exact ⟨move, hmove, rfl⟩
  · have := (Walk.line_of_mem_stepsFrom below).1
    omega

private theorem of_length_takeWhile_append {p : UInt8 → Bool} {u v : Text}
    (h : ((u ++ v).takeWhile p).length = u.length) :
    (∀ c ∈ u, p c = true) ∧ ∀ c ∈ v.head?, p c = false := by
  rw [List.takeWhile_append] at h
  split at h
  · next all =>
    have whole : u.takeWhile p = u := (List.takeWhile_prefix p).eq_of_length all
    have none : v.takeWhile p = [] := by
      rw [List.length_append] at h
      exact List.length_eq_zero_iff.mp (by omega)
    refine ⟨fun c member => ?_, fun c first => ?_⟩
    · rw [← whole] at member
      exact List.all_eq_true.mp List.all_takeWhile c member
    · cases v with
      | nil => cases first
      | cons d v =>
        cases first
        refine Bool.eq_false_iff.mpr fun more => ?_
        rw [List.takeWhile_cons_of_pos more] at none
        cases none
  · next short => exact absurd h short

section
variable {pre post : List Text} {l₁ ws l₂ : Text} {move : Move}
  (member : move ∈ Scan.moves (pre.foldl Scan.stateAfter .start) (l₁ ++ (ws ++ l₂)))
  (start : move.token.start = l₁.length) (kind : move.token.kind = .whiteSpace)
include member start kind

/-- A token of blanks stands outside of comments and strings and is a whole run of them. -/
theorem blank_of_mem_moves (stop : move.token.stop = l₁.length + ws.length) :
    move.before.inComment = false ∧ move.before.inString = false ∧ ws.Blank ∧
      ∀ c ∈ l₂.head?, Ascii.isSpace c = false := by
  rw [Scan.moves_eq] at member
  obtain ⟨c, t, drop, token⟩ := Scan.mem_movesFrom rfl member
  rw [start, List.drop_left] at drop
  rw [token] at kind stop
  obtain ⟨comment, string, space⟩ := Lexeme.blank_of_next_kind kind
  have next := Lexeme.next_of_isSpace space comment string t
  have positive := Lexeme.next_length_pos move.before c t
  have length : (Lexeme.next move.before c t).length = ws.length := by
    simp only [Lexeme.token, start] at stop
    omega
  have nonempty : ws ≠ [] := List.ne_nil_of_length_pos (length ▸ positive)
  rw [next, Lexeme.blanks, ← drop] at length
  obtain ⟨blank, ends⟩ := of_length_takeWhile_append length
  exact ⟨comment, string, ⟨nonempty, blank⟩, ends⟩

theorem exists_gap (stop : move.token.stop = l₁.length + ws.length)
    (depth : move.before.depth.val ≤ 1) : Nonempty (Gap pre l₁) := by
  obtain ⟨comment, string, blank, ends⟩ := blank_of_mem_moves member start kind stop
  obtain ⟨b, r, hws⟩ := List.exists_cons_of_ne_nil
    (show ws ++ l₂ ≠ [] from List.append_ne_nil_of_left_ne_nil blank.nonempty l₂)
  have space : Ascii.isSpace b = true := blank.beginsBlank l₂ b (by rw [hws]; rfl)
  rw [hws, Scan.moves_eq] at member
  obtain ⟨xs, hxs, others⟩ :=
    Scan.movesFrom_append_of_blank space member (start.trans (Nat.zero_add _).symm)
  -- The steps of the lines above and of `l₁` lead to the state in which the blanks are scanned.
  have coherent := (Walk.run_steps pre).coherent State.coherent_start
  have run := Walk.run_movesFrom coherent pre.length 0 (l₁ ++ b :: r)
  rw [hxs, List.map_append] at run
  obtain ⟨t, run, behind⟩ := run.of_append
  have state : t = move.before := by
    rw [Scan.movesFrom] at behind
    cases behind
    rfl
  subst state
  let seen := Walk.steps pre ++ xs.map (Step.ofMove pre.length)
  have fits := Reading.fits_start.run ((Walk.run_steps pre).append run)
  have lines : ∀ step ∈ seen, step.line ≤ pre.length := by
    intro step seen
    rcases List.mem_append.mp seen with above | here
    · have := (Walk.line_of_mem_stepsFrom above).2
      omega
    · obtain ⟨_, _, rfl⟩ := List.mem_map.mp here
      exact Nat.le_refl _
  refine ⟨⟨completed (.between none) seen, seen.foldl Reading.after (.between none), move.before,
    fits, Reading.endsBy_foldl_after trivial lines, comment, string, depth, ?_⟩⟩
  intro rest later begins
  obtain ⟨ys, alike, hys, last⟩ := others rest begins
  rw [Nat.zero_add, ← Scan.moves_eq] at hys
  have shifted : List.Forall₂ (Step.Shifted 0) seen
      (Walk.steps pre ++ ys.map (Step.ofMove pre.length)) := by
    refine List.rel_append (List.forall₂_same.mpr fun step _ => .refl step) ?_
    rw [List.forall₂_map_left_iff, List.forall₂_map_right_iff]
    exact alike.imp fun a b same => same.shifted pre.length 0
  rw [statements, Walk.steps_insert, Walk.stepsFrom_cons_of_moves hys last, ← List.append_assoc]
  exact readFrom_append_of_shifted shifted ..

end

/-- **Layout does not change statements.** Where a token of blanks stands outside of argument lists
or directly inside one, any other run of blanks, a line end, or blanks and a comment up to a line
end in its place leave the commands, names and arguments of all statements, and whether they are
closed, as they are. -/
theorem content_statements_of_layout {pre post : List Text} {l₁ ws l₂ : Text} {step : Step}
    (member : step ∈ Walk.steps (pre ++ (l₁ ++ ws ++ l₂) :: post)) (line : step.line = pre.length)
    (start : step.token.start = l₁.length) (stop : step.token.stop = l₁.length + ws.length)
    (kind : step.token.kind = .whiteSpace) (depth : step.before.depth.val ≤ 1) :
    (∀ other : Text, other.Blank →
      (statements (pre ++ (l₁ ++ other ++ l₂) :: post)).map content =
        (statements (pre ++ (l₁ ++ ws ++ l₂) :: post)).map content) ∧
    (statements (pre ++ l₁ :: l₂ :: post)).map content =
      (statements (pre ++ (l₁ ++ ws ++ l₂) :: post)).map content ∧
    ∀ other body : Text, other.Blank → (∀ n, ¬ Lexeme.commentOpener n <+: body) →
      (statements (pre ++ (l₁ ++ other ++ Ascii.hash :: body) :: l₂ :: post)).map content =
        (statements (pre ++ (l₁ ++ ws ++ l₂) :: post)).map content := by
  obtain ⟨move, found, rfl⟩ := exists_move_of_mem_steps member line
  simp only [List.append_assoc] at found ⊢
  obtain ⟨_, _, blank, ends⟩ := blank_of_mem_moves found start kind stop
  obtain ⟨gap⟩ := exists_gap found start kind stop depth
  rw [gap.contents_of_blank blank ends]
  refine ⟨fun other run => ?_, ?_, fun other body run comment => ?_⟩
  · exact gap.contents_of_blank run ends post
  · exact gap.contents_of_lineEnd (l₂ :: post)
  · exact gap.contents_of_comment run comment (l₂ :: post)

/-- Two blanks between arguments become a line end, or a comment that begins like no bracket comment
and a line end. -/
theorem content_statements_of_layout_between_arguments :
    (statements [utf8 "#", utf8 "set(A", utf8 "\"b\" c)"]).map content =
      (statements [utf8 "#", utf8 "set(A  \"b\" c)"]).map content ∧
    (statements [utf8 "#", utf8 "set(A\t#[=x[", utf8 "\"b\" c)"]).map content =
      (statements [utf8 "#", utf8 "set(A  \"b\" c)"]).map content := by
  obtain ⟨step, member, line, start, stop, kind, depth⟩ :
      ∃ step ∈ Walk.steps ([utf8 "#"] ++ (utf8 "set(A" ++ utf8 "  " ++ utf8 "\"b\" c)") :: []),
        step.line = 1 ∧ step.token.start = 5 ∧ step.token.stop = 5 + 2 ∧
          step.token.kind = .whiteSpace ∧ step.before.depth.val ≤ 1 := by decide +kernel
  obtain ⟨_, lineEnd, comment⟩ := content_statements_of_layout member line start stop kind depth
  have blank : Text.Blank (utf8 "\t") := ⟨by decide, by decide +kernel⟩
  refine ⟨lineEnd, comment (utf8 "\t") (utf8 "[=x[") blank fun n opener => ?_⟩
  have level := Lexeme.commentLevel?_eq_some_iff.mpr opener
  have none : Lexeme.commentLevel? (utf8 "[=x[") = none := by decide +kernel
  rw [none] at level
  cases level

end Script

end CMakeSense
