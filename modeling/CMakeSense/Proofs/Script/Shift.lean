import CMakeSense.Proofs.Script.Reading
import CMakeSense.Proofs.Token.Resemblance

/-! Reading further down. Steps that stand a number of lines further down and are otherwise alike
(`Step.Shifted`) give the same statements further down (`Statement.readFrom_shift`), because the
reader only compares lines. A script whose first part leaves nothing open therefore reads part by
part: the second part is scanned into the same tokens as on its own, whatever command the first one
named last. -/

namespace CMakeSense

namespace Arguments

variable (n : Nat) (args : Arguments)

/-- The same arguments `n` lines further down. -/
def shift : Arguments := { args with line := args.line + n }

theorem shift_start (line : Nat) : (start line).shift n = start (line + n) := rfl

theorem flush_shift : (args.shift n).flush = args.flush.shift n := by
  obtain ⟨ended, begun, line⟩ := args
  cases begun <;> rfl

variable {n} {a b : Step}

theorem enterLine_shift (h : a.Shifted n b) :
    (args.shift n).enterLine b = (args.enterLine a).shift n := by
  have lines : b.line = (args.shift n).line ↔ a.line = args.line := by
    rw [h.line]
    exact Nat.add_right_cancel_iff
  unfold enterLine
  simp only [lines, h.inString]
  split
  · rfl
  split
  · simp only [h.line]
    rfl
  · simp only [flush_shift, h.line]
    rfl

theorem add_shift (h : a.Shifted n b) : (args.shift n).add b = (args.add a).shift n := by
  unfold add
  simp only [h.kind, h.trigger, h.text, h.depth, enterLine_shift args h]
  split
  · rw [flush_shift]
  split
  · rfl
  split
  · rw [flush_shift]
  · rfl

end Arguments

namespace Statement

/-- The same statement `n` lines further down. -/
def shift (n : Nat) (statement : Statement) : Statement :=
  { statement with line := statement.line + n }

def Head.shift (n : Nat) (head : Head) : Head := { head with line := head.line + n }

namespace Reading

/-- The same reading `n` lines further down. -/
def shift (n : Nat) : Reading → Reading
  | .between head? => .between (head?.map (Head.shift n))
  | .within head args => .within (head.shift n) (args.shift n)

variable {n : Nat} {a b : Step}

theorem shift_zero (reading : Reading) : reading.shift 0 = reading := by
  cases reading with
  | between head? => cases head? <;> rfl
  | within head args => rfl

theorem afterOutside_shift (h : a.Shifted n b) (head? : Option Head) :
    afterOutside (head?.map (Head.shift n)) b = (afterOutside head? a).shift n := by
  unfold afterOutside
  rw [h.kind, h.trigger]
  split
  · simp [shift, Head.ofStep, Head.shift, h.command, h.text, h.line]
  · simp [shift, Head.ofStep, Head.shift, h.command, h.text, h.line]
  · split
    · cases head? with
      | none => rfl
      | some head => simp [shift, Arguments.shift_start, h.line]
    · rfl
  · rfl
  · rfl
  · rfl

theorem closesList_shift (h : a.Shifted n b) : b.closesList = a.closesList := by
  rw [Step.closesList, Step.closesList, h.trigger]

theorem after_shift (h : a.Shifted n b) (reading : Reading) :
    (reading.shift n).after b = (reading.after a).shift n := by
  cases reading with
  | between head? => exact afterOutside_shift h head?
  | within head args =>
    simp only [shift, after, closesList_shift h]
    split
    · rfl
    · rw [Arguments.add_shift args h]

theorem completes?_shift (h : a.Shifted n b) (reading : Reading) :
    (reading.shift n).completes? b = (reading.completes? a).map (Statement.shift n) := by
  cases reading with
  | between head? => rfl
  | within head args =>
    simp only [shift, completes?, closesList_shift h, Arguments.add_shift args h]
    split
    · rfl
    · rfl

end Reading

section
variable {n : Nat} {xs ys : List Step} (h : List.Forall₂ (Step.Shifted n) xs ys)
include h

theorem map_line_shift : ys.map (·.line) = xs.map (·.line + n) := by
  induction h with
  | nil => rfl
  | cons first _ ih => rw [List.map_cons, List.map_cons, first.line, ih]

theorem foldl_after_shift (reading : Reading) :
    ys.foldl Reading.after (reading.shift n) = (xs.foldl Reading.after reading).shift n := by
  induction h generalizing reading with
  | nil => rfl
  | cons first _ ih => rw [List.foldl_cons, List.foldl_cons, Reading.after_shift first, ih]

theorem completed_shift (reading : Reading) :
    completed (reading.shift n) ys = (completed reading xs).map (shift n) := by
  induction h generalizing reading with
  | nil => rfl
  | @cons a b xs ys first _ ih =>
    rw [completed, completed, Reading.completes?_shift first, Reading.after_shift first, ih,
      List.map_append]
    cases reading.completes? a <;> rfl

/-- Steps further down give the same statements further down. -/
theorem readFrom_shift (reading : Reading) :
    readFrom (reading.shift n) ys = (readFrom reading xs).map (shift n) := by
  have left := readFrom_append reading xs []
  have right := readFrom_append (reading.shift n) ys []
  rw [List.append_nil] at left right
  rw [left, right, completed_shift h, foldl_after_shift h, List.map_append]
  congr 1
  cases xs.foldl Reading.after reading with
  | between head? => rfl
  | within head args =>
    simp only [Reading.shift, readFrom, Arguments.flush_shift]
    rfl

end

end Statement

/-- Nothing is left open: neither an argument list, a string or a comment, nor a word that awaits
its parenthesis. -/
structure State.AtRest (s : State) : Prop where
  depth : s.depth.val = 0
  inString : s.inString = false
  inComment : s.inComment = false
  awaitsParen : s.awaitsParen = false

/-- Where nothing is open, scanning goes on as at the top of a script. -/
theorem State.AtRest.resembles {s : State} (h : s.AtRest) : State.start.Resembles s :=
  ⟨Fin.ext h.depth, h.awaitsParen, h.inString, h.inComment, nofun⟩

namespace Script

open Statement

variable {a : List Text} (rest : (Walk.final (Walk.steps a)).AtRest)
include rest

/-- Where nothing is open nothing has been read of a statement to come. -/
theorem foldl_after_of_atRest :
    (Walk.steps a).foldl Reading.after (.between none) = .between none := by
  have fits := Reading.fits_start.run (Walk.run_steps a)
  rw [← Walk.final_steps] at fits
  cases reading : (Walk.steps a).foldl Reading.after (.between none) with
  | between head? =>
    rw [reading] at fits
    have none : head?.isSome = false := fits.2.1.trans rest.awaitsParen
    rw [Option.not_isSome_iff_eq_none.mp (Bool.eq_false_iff.mp none)]
  | within head args =>
    rw [reading] at fits
    exact absurd rest.depth (Nat.ne_of_gt fits.1)

theorem statements_eq_completed : statements a = completed (.between none) (Walk.steps a) := by
  have read := readFrom_append (.between none) (Walk.steps a) []
  rw [List.append_nil, foldl_after_of_atRest rest, readFrom, List.append_nil] at read
  exact read

omit rest in
theorem steps_append (a b : List Text) : Walk.steps (a ++ b) = Walk.steps a ++
    Walk.stepsFrom a.length (Walk.final (Walk.steps a)) b := by
  rw [Walk.final_steps]
  have steps := Walk.stepsFrom_append 0 .start a b
  rwa [Nat.zero_add] at steps

/-- **Statements compose where nothing is open.** If the lines `a` leave no list, string, comment or
word open, the statements of `a ++ b` are those of `a` and then those of `b`, further down by the
lines of `a`. The tokens of `b` are the ones that it has on its own, so nothing else that `a` leaves
behind, such as the last command, matters in `b`. -/
theorem statements_append_of_atRest (b : List Text) :
    statements (a ++ b) = statements a ++ (statements b).map (Statement.shift a.length) ∧
    ∃ later, Walk.steps (a ++ b) = Walk.steps a ++ later ∧
      later.map (·.token) = (Walk.steps b).map (·.token) ∧
      later.map (·.line) = (Walk.steps b).map (·.line + a.length) := by
  have shifted := Walk.forall₂_stepsFrom rest.resembles 0 a.length b
  have tokens := Walk.tokens_stepsFrom_eq rest.resembles 0 a.length b
  rw [Nat.zero_add] at shifted
  refine ⟨?_, _, steps_append a b, tokens, map_line_shift shifted⟩
  have second := readFrom_shift shifted (.between none)
  rw [statements, steps_append, readFrom_append, foldl_after_of_atRest rest,
    statements_eq_completed rest]
  exact congrArg (completed (.between none) (Walk.steps a) ++ ·) second

omit rest in
/-- Behind a call that leaves its command in the state, a string over two lines and an open list. -/
theorem statements_append_of_atRest_behind_call :
    (Walk.final (Walk.steps [utf8 "if(A)", utf8 "#"])).lastCommand ≠ none ∧
    statements ([utf8 "if(A)", utf8 "#"] ++ [utf8 "f(\"b", utf8 "c\") set(D"]) =
      statements [utf8 "if(A)", utf8 "#"] ++
        (statements [utf8 "f(\"b", utf8 "c\") set(D"]).map (Statement.shift 2) := by
  have rest : (Walk.final (Walk.steps [utf8 "if(A)", utf8 "#"])).AtRest :=
    ⟨by decide +kernel, by decide +kernel, by decide +kernel, by decide +kernel⟩
  exact ⟨by decide +kernel, (statements_append_of_atRest rest _).1⟩

end Script

end CMakeSense
