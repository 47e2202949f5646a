import CMakeSense.Proofs.Query.Place

/-! The command around a position and the statements of the script. Following tokens for a position
(`Context.Trail`) and reading statements (`Statement.Reading`) are two ways through the same walk.
They keep step (`Context.Trail.Tracks`), since both turn at the same tokens. So the context of a
position is that of the statement whose argument list has been opened there and not yet closed, and
the arguments it shows are a beginning of the arguments of that statement, a longer one the further
the position is. -/

namespace CMakeSense

open Statement

namespace Script

/-- What has been read of the statements at a place. -/
def readingAt (lines : List Text) (line : Nat) (column : Int) : Reading :=
  (Walk.upTo lines line column).foldl Reading.after (.between none)

variable {lines : List Text} {line : Nat} {column : Int}

theorem fits_readingAt {s : State} (run : Walk.Run .start (Walk.upTo lines line column) s) :
    (readingAt lines line column).Fits s :=
  Reading.fits_start.run run

/-- The statements cut at a place. -/
theorem statements_eq_append (lines : List Text) (line : Nat) (column : Int) :
    ∃ rest, statements lines = completed (.between none) (Walk.upTo lines line column) ++
      readFrom (readingAt lines line column) rest := by
  obtain ⟨rest, hrest⟩ := Walk.upTo_isPrefix lines line column
  exact ⟨rest, by rw [statements, ← hrest, readFrom_append, readingAt]⟩

/-- One more argument list has been opened than closed inside of one, and as many outside. -/
theorem countP_opensList_upTo (lines : List Text) (line : Nat) (column : Int) :
    (Walk.upTo lines line column).countP Step.opensList =
      (Walk.upTo lines line column).countP Step.closesList +
        (readingAt lines line column).isWithin.toNat := by
  obtain ⟨s, run⟩ := Walk.exists_run_upTo lines line column
  exact countP_opensList Reading.fits_start run

/-- The statement that is being read at a place, in the list of statements. -/
theorem getElem?_statements_of_within {head : Head} {args : Arguments}
    (h : readingAt lines line column = .within head args) :
    ∃ arguments closed, args.done <+: arguments ∧
      (statements lines)[(Walk.upTo lines line column).countP Step.closesList]? =
        some (head.statement arguments closed) := by
  obtain ⟨rest, hparts⟩ := statements_eq_append lines line column
  obtain ⟨arguments, closed, others, extends_, hread⟩ := readFrom_within head args rest
  obtain ⟨s, run⟩ := Walk.exists_run_upTo lines line column
  refine ⟨arguments, closed, extends_, ?_⟩
  rw [hparts, h, hread, ← length_completed Reading.fits_start run,
    List.getElem?_append_right (Nat.le_refl _), Nat.sub_self]
  rfl

/-- Between two places inside the same argument list tokens are only added to it. -/
theorem readingAt_of_le {i j : Nat} {c d : Int} {head head' : Head} {args args' : Arguments}
    (hle : i < j ∨ i = j ∧ c ≤ d) (hi : readingAt lines i c = .within head args)
    (hj : readingAt lines j d = .within head' args')
    (same : (Walk.upTo lines i c).countP Step.opensList =
      (Walk.upTo lines j d).countP Step.opensList) :
    head' = head ∧ args.done <+: args'.done := by
  obtain ⟨steps, hsteps⟩ := Walk.upTo_isPrefix_of_le lines hle
  have counti := countP_opensList_upTo lines i c
  have countj := countP_opensList_upTo lines j d
  rw [hi] at counti
  rw [hj] at countj
  -- One list is open at both places and none is opened between, so none is closed between.
  have closes := congrArg (List.countP Step.closesList) hsteps
  simp only [List.countP_append, Reading.isWithin] at closes counti countj
  have open_ : ∀ step ∈ steps, step.closesList = false := by
    have none : steps.countP Step.closesList = 0 := by omega
    simpa using List.countP_eq_zero.mp none
  have read : readingAt lines j d = steps.foldl Reading.after (readingAt lines i c) := by
    rw [readingAt, ← hsteps, List.foldl_append, readingAt]
  rw [hi, hj, Reading.foldl_after_within open_] at read
  cases read
  exact ⟨rfl, args.done_isPrefix_foldl_add steps⟩

end Script

namespace Context

/-- What following the tokens has found agrees with what has been read of the statements. -/
def Trail.Tracks (trail : Trail) : Reading → Prop
  | .between head? => trail.arguments? = none ∧ ∀ head ∈ head?, trail.name = head.name
  | .within head args => trail.arguments? = some args ∧ trail.name = head.name

namespace Trail

variable {trail : Trail} {step : Step} {reading next : Reading}

theorem state_follow (trail : Trail) (step : Step) : (trail.follow step).state = step.after := by
  unfold follow
  split
  · rfl
  · split
    · rfl
    · split <;> rfl

/-- One token keeps both ways in step. -/
theorem Tracks.follow (tracks : trail.Tracks reading) (turn : Reading.Turn step reading next) :
    (trail.follow step).Tracks next := by
  cases turn with
  | opens kind start stop =>
    obtain ⟨none, name⟩ := tracks
    simp_all [Trail.follow, Tracks, Step.opensList, TokenKind.isWord]
  | closes start stop next =>
    obtain ⟨some, name⟩ := tracks
    simp_all [Trail.follow, Tracks, Step.closesList]
  | names word start stop =>
    obtain ⟨none, name⟩ := tracks
    simp_all [Trail.follow, Tracks, Head.ofStep]
  | passes word start stop kept =>
    obtain ⟨none, name⟩ := tracks
    simp_all [Trail.follow, Tracks, Step.opensList]
  | stays start stop =>
    obtain ⟨some, name⟩ := tracks
    simp_all [Trail.follow, Tracks, Step.closesList]

/-- A run keeps both ways in step, and the trail ends in the state of the run. -/
theorem Tracks.run {s t : State} {steps : List Step} (tracks : trail.Tracks reading)
    (fits : reading.Fits s) (hstate : trail.state = s) (run : Walk.Run s steps t) :
    (steps.foldl Trail.follow trail).Tracks (steps.foldl Reading.after reading) ∧
      (steps.foldl Trail.follow trail).state = t := by
  refine fits.run_induction Trail.follow
    (motive := fun trail reading s => trail.Tracks reading ∧ trail.state = s) ?_
    ⟨tracks, hstate⟩ run
  intro trail reading next step kept _ turn _
  exact ⟨kept.1.follow turn, trail.state_follow step⟩

end Trail

variable {lines : List Text} {line : Nat} {column : Int}

/-- The trail at a place keeps step with what has been read there. -/
theorem tracks_upTo (lines : List Text) (line : Nat) (column : Int) :
    ((Walk.upTo lines line column).foldl Trail.follow .start).Tracks
        (Script.readingAt lines line column) ∧
      (Script.readingAt lines line column).Fits
        ((Walk.upTo lines line column).foldl Trail.follow .start).state := by
  obtain ⟨s, run⟩ := Walk.exists_run_upTo lines line column
  have start : Trail.start.Tracks (.between none) := ⟨rfl, nofun⟩
  obtain ⟨tracks, hstate⟩ := start.run Reading.fits_start rfl run
  exact ⟨tracks, hstate ▸ Script.fits_readingAt run⟩

/-- Outside of argument lists a place has no arguments. -/
theorem atLine_of_between {head? : Option Head}
    (h : Script.readingAt lines line column = .between head?) :
    (atLine lines line column).arguments? = none ∧ (atLine lines line column).depth = 0 := by
  obtain ⟨tracks, fits⟩ := tracks_upTo lines line column
  rw [h] at tracks fits
  obtain ⟨none, _⟩ := tracks
  obtain ⟨outside, _⟩ := fits
  unfold atLine
  simp only [none, outside]
  split
  · contradiction
  · exact ⟨rfl, rfl⟩
  · exact ⟨rfl, rfl⟩

/-- Inside of an argument list a place has the command, the name and the arguments of the statement
that is being read there. -/
theorem atLine_of_within {head : Head} {args : Arguments}
    (h : Script.readingAt lines line column = .within head args) :
    (atLine lines line column).arguments? = some args.done ∧
      0 < (atLine lines line column).depth ∧
      (atLine lines line column).command = head.command ∧
      (atLine lines line column).name = head.name := by
  obtain ⟨tracks, fits⟩ := tracks_upTo lines line column
  rw [h] at tracks fits
  obtain ⟨some, name⟩ := tracks
  obtain ⟨inside, _, command⟩ := fits
  unfold atLine
  simp only [some, name, true_and, and_true]
  exact ⟨inside, command.symm⟩

variable {p q : Position}

theorem around_eq_atLine (h : p.lineIn? lines = some line) :
    around lines p = atLine lines line p.column := by
  simp only [around, h]

theorem around_of_lineIn?_eq_none (h : p.lineIn? lines = none) : around lines p = outside := by
  simp only [around, h]

/-- A position that shows arguments is inside of an argument list. -/
theorem exists_readingAt_of_arguments? {arguments : List Text}
    (h : (around lines p).arguments? = some arguments) :
    ∃ line head args, p.lineIn? lines = some line ∧
      Script.readingAt lines line p.column = .within head args ∧ args.done = arguments := by
  cases hline : p.lineIn? lines with
  | none =>
    rw [around_of_lineIn?_eq_none hline] at h
    cases h
  | some line =>
    rw [around_eq_atLine hline] at h
    cases hread : Script.readingAt lines line p.column with
    | between head? =>
      rw [(atLine_of_between hread).1] at h
      cases h
    | within head args =>
      rw [(atLine_of_within hread).1] at h
      exact ⟨line, head, args, rfl, hread, Option.some.inj h⟩

/-- A position is inside of an argument list exactly when it shows arguments, and exactly when more
lists are opened than closed there. -/
theorem isInside_iff (lines : List Text) (p : Position) :
    ((around lines p).isInside = true ↔ (around lines p).arguments?.isSome = true) ∧
      ((around lines p).isInside = true ↔ p.closed lines < p.opened lines) := by
  cases hline : p.lineIn? lines with
  | none =>
    rw [around_of_lineIn?_eq_none hline, Position.opened_of_lineIn?_eq_none hline]
    simp [outside, isInside]
  | some line =>
    have counts := Script.countP_opensList_upTo lines line p.column
    rw [around_eq_atLine hline, Position.opened_eq hline, Position.closed_eq hline, counts]
    cases hread : Script.readingAt lines line p.column with
    | between head? =>
      obtain ⟨none, depth⟩ := atLine_of_between hread
      simp [isInside, none, depth, Reading.isWithin]
    | within head args =>
      obtain ⟨some, depth, _⟩ := atLine_of_within hread
      simp [isInside, some, depth, Reading.isWithin]

/-- **The command around a position is that of a statement.** A position is inside of an argument
list exactly when it shows arguments. Its command and name are then those of the statement whose
list is the last one opened at or before it, and the arguments it shows are a beginning of those of
the statement; a later position in the same list shows at least as many. -/
theorem around_agrees_statements (lines : List Text) (p : Position) :
    ((around lines p).isInside = true ↔ (around lines p).arguments?.isSome = true) ∧
    ((around lines p).isInside = true ↔ p.closed lines < p.opened lines) ∧
    (∀ arguments, (around lines p).arguments? = some arguments →
      ∃ k statement, p.opened lines = k + 1 ∧ (Script.statements lines)[k]? = some statement ∧
        (around lines p).command = statement.command ∧ (around lines p).name = statement.name ∧
        arguments <+: statement.arguments) ∧
    ∀ q arguments more, p.LeIn lines q → p.opened lines = q.opened lines →
      (around lines p).arguments? = some arguments → (around lines q).arguments? = some more →
      arguments <+: more := by
  obtain ⟨shows, opened⟩ := isInside_iff lines p
  refine ⟨shows, opened, fun arguments h => ?_, fun q arguments more hle same hp hq => ?_⟩
  · obtain ⟨line, head, args, hline, hread, rfl⟩ := exists_readingAt_of_arguments? h
    obtain ⟨arguments, closed, begins, hstatement⟩ := Script.getElem?_statements_of_within hread
    obtain ⟨_, _, command, name⟩ := atLine_of_within hread
    have counts := Script.countP_opensList_upTo lines line p.column
    rw [hread] at counts
    rw [around_eq_atLine hline, command, name]
    exact ⟨_, _, (Position.opened_eq hline).trans counts, hstatement, rfl, rfl, begins⟩
  · obtain ⟨i, _, args, hi, readi, rfl⟩ := exists_readingAt_of_arguments? hp
    obtain ⟨j, _, args', hj, readj, rfl⟩ := exists_readingAt_of_arguments? hq
    obtain ⟨i', j', hi', hj', order⟩ := hle
    cases hi.symm.trans hi'
    cases hj.symm.trans hj'
    -- As many lists are opened up to both positions, so both are in the same one.
    rw [Position.opened_eq hi, Position.opened_eq hj] at same
    exact (Script.readingAt_of_le order readi readj same).2

/-- In the second of two calls, before its last argument and, past the end of the script, at it. -/
theorem around_agrees_statements_in_second_call :
    (∃ k statement, Position.opened ⟨1, 5⟩ [utf8 "f(x)", utf8 "set(A", utf8 " B)"] = k + 1 ∧
      (Script.statements [utf8 "f(x)", utf8 "set(A", utf8 " B)"])[k]? = some statement ∧
      (around [utf8 "f(x)", utf8 "set(A", utf8 " B)"] ⟨1, 5⟩).command = statement.command ∧
      (around [utf8 "f(x)", utf8 "set(A", utf8 " B)"] ⟨1, 5⟩).name = statement.name ∧
      [] <+: statement.arguments) ∧
    [] <+: [utf8 "A"] := by
  have p : (around [utf8 "f(x)", utf8 "set(A", utf8 " B)"] ⟨1, 5⟩).arguments? = some [] := by
    decide +kernel
  have q : (around [utf8 "f(x)", utf8 "set(A", utf8 " B)"] ⟨7, 1⟩).arguments? =
      some [utf8 "A"] := by decide +kernel
  obtain ⟨_, _, statement, later⟩ :=
    around_agrees_statements [utf8 "f(x)", utf8 "set(A", utf8 " B)"] ⟨1, 5⟩
  exact ⟨statement [] p, later ⟨7, 1⟩ [] [utf8 "A"] ⟨1, 2, rfl, rfl, .inl (by decide)⟩
    (by decide +kernel) p q⟩

end Context

end CMakeSense
