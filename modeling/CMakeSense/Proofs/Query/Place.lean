import CMakeSense.Proofs.Script.Reading
import CMakeSense.Query.Context

/-! Positions against the tokens of a script. The steps that a query at a position sees are, of all
steps of the script, those that start at or before it (`Walk.upTo_eq_filter`). Since steps stand in
order, they are a beginning of the walk, which grows with the position (`Walk.upTo_isPrefix_of_le`)
and ends with the step at the position where there is one (`Walk.getLast?_upTo`). -/

namespace CMakeSense

/-- Whether a step starts at or before a column of a line. -/
def Step.startsBy (line : Nat) (column : Int) (step : Step) : Bool :=
  step.line < line || step.line = line && step.token.start ≤ column

theorem Step.startsBy_iff {line : Nat} {column : Int} {step : Step} :
    step.startsBy line column = true ↔
      step.line < line ∨ step.line = line ∧ (step.token.start : Int) ≤ column := by
  simp [startsBy]

namespace Position

/-- Whether a step of a script starts at or before a position. A position past the last line counts
as one in the last line. -/
def reaches (position : Position) (lines : List Text) (step : Step) : Bool :=
  (position.lineIn? lines).any fun line => step.startsBy line position.column

/-- The number of argument lists of a script that are opened at or before a position. -/
def opened (position : Position) (lines : List Text) : Nat :=
  (Walk.steps lines).countP fun step => step.opensList && position.reaches lines step

/-- The number of argument lists of a script that are closed at or before a position. -/
def closed (position : Position) (lines : List Text) : Nat :=
  (Walk.steps lines).countP fun step => step.closesList && position.reaches lines step

/-- Whether a step of a script starts exactly at a position. -/
def IsAt (position : Position) (lines : List Text) (step : Step) : Prop :=
  step ∈ Walk.steps lines ∧ position.lineIn? lines = some step.line ∧
    (step.token.start : Int) = position.column

/-- The order of positions in a script. -/
def LeIn (lines : List Text) (p q : Position) : Prop :=
  ∃ i j, p.lineIn? lines = some i ∧ q.lineIn? lines = some j ∧
    (i < j ∨ i = j ∧ p.column ≤ q.column)

end Position

private theorem takeWhile_eq_filter {α : Type} {p : α → Bool} {xs : List α}
    (h : xs.Pairwise fun a b => p b = true → p a = true) : xs.takeWhile p = xs.filter p := by
  induction h with
  | nil => rfl
  | @cons a xs first _ ih =>
    cases ha : p a with
    | true => rw [List.takeWhile_cons_of_pos ha, List.filter_cons_of_pos ha, ih]
    | false =>
      rw [List.takeWhile_cons_of_neg (by simp [ha]), List.filter_cons_of_neg (by simp [ha])]
      refine (List.filter_eq_nil_iff.mpr fun b hb => ?_).symm
      intro pb
      simp [first b hb pb] at ha

namespace Walk

variable {lines : List Text} {line : Nat} {column : Int}

theorem line_lt_of_mem_steps_take {step : Step} (h : step ∈ steps (lines.take line)) :
    step.line < line := by
  have := (line_of_mem_stepsFrom h).2
  rw [List.length_take] at this
  omega

private theorem takeWhile_steps (h : ∀ step ∈ steps lines, step.line ≤ line) :
    ((steps lines).takeWhile fun step => !(step.line = line && column < step.token.start)) =
      (steps lines).filter (Step.startsBy line column) := by
  rw [takeWhile_eq_filter]
  · refine List.filter_congr fun step hstep => ?_
    have := h step hstep
    rw [Bool.eq_iff_iff, Step.startsBy_iff]
    simp only [Bool.not_eq_true', Bool.and_eq_false_iff, decide_eq_false_iff_not]
    omega
  · refine (pairwise_steps lines).imp_of_mem fun {a b} _ hb hab seen => ?_
    have := h b hb
    simp only [Step.Precedes] at hab
    simp only [Bool.not_eq_true', Bool.and_eq_false_iff, decide_eq_false_iff_not] at seen ⊢
    omega

/-- A query at a place sees the steps that start at or before it. -/
theorem upTo_eq_filter (lines : List Text) (line : Nat) (column : Int) :
    upTo lines line column = (steps lines).filter (Step.startsBy line column) := by
  rcases Nat.lt_or_ge line lines.length with h | h
  · have later : (stepsFrom (line + 1) (stateAt lines (line + 1)) (lines.drop (line + 1))).filter
        (Step.startsBy line column) = [] := by
      refine List.filter_eq_nil_iff.mpr fun step hstep => ?_
      have := (line_of_mem_stepsFrom hstep).1
      rw [Step.startsBy_iff]
      omega
    rw [upTo, takeWhile_steps, steps_eq_append lines h, List.filter_append, later, List.append_nil]
    exact fun step hstep => Nat.le_of_lt_succ (line_lt_of_mem_steps_take hstep)
  · rw [upTo, List.take_of_length_le (by omega), takeWhile_steps]
    intro step hstep
    have := (line_of_mem_stepsFrom hstep).2
    omega

/-- A query on a line sees the lines before it and what starts on the line up to the column. -/
theorem upTo_eq_append {text : Text} (h : lines[line]? = some text) (column : Int) :
    upTo lines line column = steps (lines.take line) ++
      ((Scan.moves (stateAt lines line) text).map (Step.ofMove line)).filter
        (Step.startsBy line column) := by
  obtain ⟨hlt, hget⟩ := List.getElem?_eq_some_iff.mp h
  have before : (steps (lines.take line)).filter (Step.startsBy line column) =
      steps (lines.take line) := by
    refine List.filter_eq_self.mpr fun step hstep => Step.startsBy_iff.mpr (.inl ?_)
    exact line_lt_of_mem_steps_take hstep
  have after : (stepsFrom (line + 1) (Scan.stateAfter (stateAt lines line) text)
      (lines.drop (line + 1))).filter (Step.startsBy line column) = [] := by
    refine List.filter_eq_nil_iff.mpr fun step hstep => ?_
    have := (line_of_mem_stepsFrom hstep).1
    rw [Step.startsBy_iff]
    omega
  rw [upTo_eq_filter, steps_eq_append lines (Nat.le_of_lt hlt), List.drop_eq_getElem_cons hlt, hget,
    List.filter_append, before, stepsFrom, List.filter_append, after, List.append_nil]

theorem exists_upTo_eq_append {text : Text} (h : lines[line]? = some text) (column : Int) :
    ∃ seen, upTo lines line column = steps (lines.take line) ++ seen ∧
      ∀ step ∈ seen, step.line = line := by
  refine ⟨_, upTo_eq_append h column, fun step hstep => ?_⟩
  obtain ⟨move, _, rfl⟩ := List.mem_map.mp (List.mem_filter.mp hstep).1
  rfl

/-- An empty line adds nothing to what is seen before it. -/
theorem upTo_of_nil (h : lines[line]? = some []) :
    upTo lines line column = steps (lines.take line) := by
  simp [upTo_eq_append h column, Scan.moves_eq, Scan.movesFrom]

/-- From any column of a line that is not empty its first token is seen. -/
theorem upTo_of_cons {c : UInt8} {t : Text} (h : lines[line]? = some (c :: t))
    (hcolumn : 0 ≤ column) :
    ∃ step more, upTo lines line column = steps (lines.take line) ++ step :: more ∧
      step.line = line ∧ step.before = stateAt lines line := by
  rw [upTo_eq_append h column, Scan.moves_eq, Scan.movesFrom, List.map_cons,
    List.filter_cons_of_pos]
  · exact ⟨_, _, rfl, rfl, rfl⟩
  · exact Step.startsBy_iff.mpr (.inr ⟨rfl, hcolumn⟩)

theorem mem_upTo {step : Step} :
    step ∈ upTo lines line column ↔ step ∈ steps lines ∧ step.startsBy line column = true := by
  rw [upTo_eq_filter, List.mem_filter]

theorem upTo_isPrefix (lines : List Text) (line : Nat) (column : Int) :
    upTo lines line column <+: steps lines := by
  rw [upTo_eq_filter, ← takeWhile_eq_filter]
  · exact List.takeWhile_prefix _
  · refine (pairwise_steps lines).imp fun {a b} hab seen => ?_
    simp only [Step.Precedes] at hab
    rw [Step.startsBy_iff] at seen ⊢
    omega

/-- A later place sees at least as much. -/
theorem upTo_isPrefix_of_le (lines : List Text) {i j : Nat} {c d : Int}
    (h : i < j ∨ i = j ∧ c ≤ d) : upTo lines i c <+: upTo lines j d := by
  refine List.prefix_of_prefix_length_le (upTo_isPrefix ..) (upTo_isPrefix ..) ?_
  rw [upTo_eq_filter, upTo_eq_filter, ← List.countP_eq_length_filter,
    ← List.countP_eq_length_filter]
  refine List.countP_mono_left fun step _ seen => ?_
  rw [Step.startsBy_iff] at seen ⊢
  omega

/-- The step at a place is the last one seen from there. -/
theorem getLast?_upTo {step : Step} (hstep : step ∈ steps lines) (hline : step.line = line)
    (hcolumn : (step.token.start : Int) = column) :
    (upTo lines line column).getLast? = some step := by
  have seen : step ∈ upTo lines line column :=
    mem_upTo.mpr ⟨hstep, Step.startsBy_iff.mpr (.inr ⟨hline, Int.le_of_eq hcolumn⟩)⟩
  obtain ⟨xs, ys, hsplit⟩ := List.append_of_mem seen
  have order := (pairwise_steps lines).sublist (upTo_isPrefix lines line column).sublist
  rw [hsplit, List.pairwise_append, List.pairwise_cons] at order
  cases ys with
  | nil => simp [hsplit]
  | cons next ys =>
    -- A step behind the one at the place would start after it.
    have behind := order.2.1.1 next List.mem_cons_self
    have seen : next ∈ upTo lines line column := by simp [hsplit]
    have starts := Step.startsBy_iff.mp (mem_upTo.mp seen).2
    simp only [Step.Precedes] at behind
    omega

/-- What is seen from the place of a step: the steps before it, and the step itself. -/
theorem upTo_of_split {step : Step} {front rest : List Step}
    (split : steps lines = front ++ step :: rest) :
    upTo lines step.line step.token.start = front ++ [step] := by
  have order := pairwise_steps lines
  rw [split, List.pairwise_append, List.pairwise_cons] at order
  obtain ⟨_, ⟨behind, _⟩, before⟩ := order
  have seen : front.filter (Step.startsBy step.line step.token.start) = front := by
    refine List.filter_eq_self.mpr fun other member => Step.startsBy_iff.mpr ?_
    have := before other member step List.mem_cons_self
    simp only [Step.Precedes] at this
    omega
  have unseen : rest.filter (Step.startsBy step.line step.token.start) = [] := by
    refine List.filter_eq_nil_iff.mpr fun other member => ?_
    have := behind other member
    simp only [Step.Precedes] at this
    rw [Step.startsBy_iff]
    omega
  rw [upTo_eq_filter, split, List.filter_append, List.filter_cons_of_pos, seen, unseen]
  exact Step.startsBy_iff.mpr (.inr ⟨rfl, Int.le_refl _⟩)

/-- The steps seen from a place are a run. -/
theorem exists_run_upTo (lines : List Text) (line : Nat) (column : Int) :
    ∃ s, Run .start (upTo lines line column) s := by
  obtain ⟨rest, hrest⟩ := upTo_isPrefix lines line column
  have run := run_steps lines
  rw [← hrest] at run
  obtain ⟨s, left, _⟩ := run.of_append
  exact ⟨s, left⟩

end Walk

namespace Position

theorem lineIn?_of_lt {lines : List Text} {line : Nat} (h : line < lines.length) (column : Int) :
    lineIn? ⟨line, column⟩ lines = some line := by
  have nonempty : lines.isEmpty = false := by
    cases lines with
    | nil => cases h
    | cons => rfl
  simp only [lineIn?, nonempty, Bool.false_or, decide_eq_true_eq, Int.toNat_natCast]
  rw [if_neg (by omega), Nat.min_eq_left (by omega)]

variable {p : Position} {lines : List Text} {line : Nat}

theorem countP_reaches (h : p.lineIn? lines = some line) (f : Step → Bool) :
    (Walk.steps lines).countP (fun step => f step && p.reaches lines step) =
      (Walk.upTo lines line p.column).countP f := by
  rw [Walk.upTo_eq_filter, List.countP_filter]
  simp only [reaches, h, Option.any_some]

theorem opened_eq (h : p.lineIn? lines = some line) :
    p.opened lines = (Walk.upTo lines line p.column).countP Step.opensList :=
  countP_reaches h _

theorem closed_eq (h : p.lineIn? lines = some line) :
    p.closed lines = (Walk.upTo lines line p.column).countP Step.closesList :=
  countP_reaches h _

/-- A position that the script does not have comes before all of its steps. -/
theorem opened_of_lineIn?_eq_none (h : p.lineIn? lines = none) : p.opened lines = 0 := by
  simp [opened, reaches, h]

end Position

end CMakeSense
