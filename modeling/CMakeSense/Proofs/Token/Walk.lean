import CMakeSense.Proofs.Token.Effect
import CMakeSense.Token.Walk

/-! The steps of a walk. `Walk.Run s steps t` says that the steps lead from the state `s` to the
state `t`, each beginning where the one before it ended and each with the token that scanning finds
there (`Step.Scanned`), so that it does one of the things that tokens do (`Lexeme.Effect`). A walk
is a run (`Walk.run_steps`), and so is every beginning of one. Its steps stand in the order of their
places (`Walk.pairwise_steps`), line by line and from left to right. -/

namespace CMakeSense

namespace Step

/-- The token of a step, apart from its place. -/
def lexeme (step : Step) : Lexeme :=
  ⟨step.token.kind, step.token.length, step.after, step.token.trigger, step.token.command⟩

/-- Whether a step opens an argument list. -/
def opensList (step : Step) : Bool := step.token.trigger.has .parameterStart

/-- Whether a step closes an argument list. -/
def closesList (step : Step) : Bool := step.token.trigger.has .parameterEnd

/-- The step's token is the one that scanning finds at the head of its rest. -/
structure Scanned (step : Step) : Prop where
  coherent : step.before.Coherent
  next : ∃ c t, step.rest = c :: t ∧ step.lexeme = Lexeme.next step.before c t

/-- Earlier in the script: on an earlier line, or further left on the same one. -/
def Precedes (a b : Step) : Prop :=
  a.line < b.line ∨ a.line = b.line ∧ a.token.start < b.token.start

end Step

theorem Lexeme.length_token (l : Lexeme) (offset : Nat) : (l.token offset).length = l.length :=
  Nat.add_sub_cancel_left ..

theorem Step.lexeme_ofMove (l : Lexeme) (line offset : Nat) (rest : Text) (s : State) :
    (ofMove line ⟨l.token offset, rest, s, l.after⟩).lexeme = l := by
  simp only [lexeme, ofMove, Lexeme.length_token]
  rfl

namespace Step.Scanned

variable {step : Step}

theorem effect (h : step.Scanned) : step.lexeme.Effect step.before step.rest := by
  obtain ⟨coherent, c, t, hrest, hnext⟩ := h
  rw [hrest, hnext]
  exact Lexeme.next_effect coherent c t

theorem coherent_after (h : step.Scanned) : step.after.Coherent := by
  obtain ⟨coherent, c, t, _, hnext⟩ := h
  have hafter : step.after = (Lexeme.next step.before c t).after := congrArg Lexeme.after hnext
  rw [hafter]
  exact Lexeme.coherent_next coherent c t

theorem kind_of_inString (h : step.Scanned) (string : step.before.inString = true) :
    step.token.kind = .stringLiteral := by
  obtain ⟨coherent, c, t, _, hnext⟩ := h
  exact (congrArg Lexeme.kind hnext).trans (Lexeme.kind_next_of_inString coherent string c t)

end Step.Scanned

namespace Scan

/-- The tokens of a rest of a line start within it. -/
theorem le_start_of_mem_movesFrom {s : State} {offset : Nat} {rest : Text} {move : Move}
    (h : move ∈ movesFrom s offset rest) : offset ≤ move.token.start := by
  fun_induction movesFrom s offset rest with
  | case1 => cases h
  | case2 s offset c t lexeme ih =>
    rcases List.mem_cons.mp h with rfl | h
    · exact Nat.le_refl _
    · exact Nat.le_trans (Nat.le_add_right ..) (ih h)

/-- The tokens of a line stand from left to right. -/
theorem pairwise_movesFrom (s : State) (offset : Nat) (rest : Text) :
    (movesFrom s offset rest).Pairwise fun a b => a.token.start < b.token.start := by
  fun_induction movesFrom s offset rest with
  | case1 => exact .nil
  | case2 s offset c t lexeme ih =>
    refine .cons (fun move h => ?_) ih
    have positive : 0 < lexeme.length := Lexeme.next_length_pos s c t
    have start := le_start_of_mem_movesFrom h
    simp only [Lexeme.token]
    omega

end Scan

namespace Walk

/-- The steps lead from one state to another. -/
inductive Run : State → List Step → State → Prop where
  | nil {s : State} : Run s [] s
  | cons {step : Step} {steps : List Step} {t : State}
      (scanned : step.Scanned) (rest : Run step.after steps t) :
      Run step.before (step :: steps) t

namespace Run

variable {s t u : State} {xs ys : List Step}

theorem append (left : Run s xs t) (right : Run t ys u) : Run s (xs ++ ys) u := by
  induction left with
  | nil => exact right
  | cons scanned _ ih => exact .cons scanned (ih right)

theorem of_append (run : Run s (xs ++ ys) u) : ∃ t, Run s xs t ∧ Run t ys u := by
  induction xs generalizing s with
  | nil => exact ⟨s, .nil, run⟩
  | cons step xs ih =>
    cases run with
    | cons scanned rest =>
      obtain ⟨t, left, right⟩ := ih rest
      exact ⟨t, .cons scanned left, right⟩

theorem of_cons {step : Step} (run : Run s (step :: xs) t) :
    s = step.before ∧ step.Scanned ∧ Run step.after xs t := by
  cases run with
  | cons scanned rest => exact ⟨rfl, scanned, rest⟩

theorem coherent (run : Run s xs t) (h : s.Coherent) : t.Coherent := by
  induction run with
  | nil => exact h
  | cons scanned _ ih => exact ih scanned.coherent_after

theorem final_eq (run : Run s xs t) : xs.foldl (fun _ step => step.after) s = t := by
  induction run with
  | nil => rfl
  | cons _ _ ih => exact ih

end Run

/-- The tokens of a rest of a line lead to the state after them. -/
theorem run_movesFrom {s : State} (h : s.Coherent) (line offset : Nat) (rest : Text) :
    Run s ((Scan.movesFrom s offset rest).map (Step.ofMove line))
      (Scan.final s (Scan.movesFrom s offset rest)) := by
  fun_induction Scan.movesFrom s offset rest with
  | case1 => exact .nil
  | case2 s offset c t lexeme ih =>
    let step := Step.ofMove line ⟨lexeme.token offset, c :: t, s, lexeme.after⟩
    have scanned : step.Scanned := ⟨h, c, t, rfl, Step.lexeme_ofMove ..⟩
    exact Run.cons scanned (ih scanned.coherent_after)

/-- The steps from a byte of a line on: `rest` is what the line holds from there, and `lines` come
after it. -/
def stepsAt (line : Nat) (s : State) (column : Nat) (rest : Text) (lines : List Text) : List Step :=
  (Scan.movesFrom s column rest).map (Step.ofMove line) ++
    stepsFrom (line + 1) (Scan.final s (Scan.movesFrom s column rest)) lines

theorem stepsFrom_cons (first : Nat) (s : State) (text : Text) (lines : List Text) :
    stepsFrom first s (text :: lines) = stepsAt first s 0 text lines := by
  rw [stepsFrom, Scan.moves_eq, Scan.stateAfter_eq, stepsAt]

theorem stepsAt_nil (line : Nat) (s : State) (column : Nat) (lines : List Text) :
    stepsAt line s column [] lines = stepsFrom (line + 1) s lines := by
  rw [stepsAt, Scan.movesFrom]
  rfl

/-- Lines lead to the state that they leave. -/
theorem run_stepsFrom {s : State} (h : s.Coherent) (first : Nat) (lines : List Text) :
    Run s (stepsFrom first s lines) (lines.foldl Scan.stateAfter s) := by
  induction lines generalizing s first with
  | nil => exact .nil
  | cons line lines ih =>
    have run := run_movesFrom h first 0 line
    rw [← Scan.stateAfter_eq, ← Scan.moves_eq] at run
    exact run.append (ih (run.coherent h) _)

theorem run_steps (lines : List Text) :
    Run .start (steps lines) (lines.foldl Scan.stateAfter .start) :=
  run_stepsFrom State.coherent_start 0 lines

theorem final_steps (lines : List Text) :
    final (steps lines) = lines.foldl Scan.stateAfter .start :=
  (run_steps lines).final_eq

theorem stepsFrom_append (first : Nat) (s : State) (xs ys : List Text) :
    stepsFrom first s (xs ++ ys) = stepsFrom first s xs ++
      stepsFrom (first + xs.length) (xs.foldl Scan.stateAfter s) ys := by
  induction xs generalizing first s with
  | nil => rfl
  | cons line xs ih =>
    simp only [List.cons_append, stepsFrom, ih, List.append_assoc, List.foldl_cons,
      List.length_cons, Nat.add_assoc, Nat.add_comm 1]

/-- The steps of a script are those of its first `n` lines and then those of the others. -/
theorem steps_eq_append (lines : List Text) {n : Nat} (h : n ≤ lines.length) :
    steps lines = steps (lines.take n) ++ stepsFrom n (stateAt lines n) (lines.drop n) := by
  have parts := stepsFrom_append 0 .start (lines.take n) (lines.drop n)
  rwa [List.take_append_drop, List.length_take, Nat.min_eq_left h, Nat.zero_add] at parts

theorem line_of_mem_stepsFrom {first : Nat} {s : State} {lines : List Text} {step : Step}
    (h : step ∈ stepsFrom first s lines) :
    first ≤ step.line ∧ step.line < first + lines.length := by
  induction lines generalizing first s with
  | nil => cases h
  | cons line lines ih =>
    simp only [stepsFrom, List.mem_append, List.mem_map] at h
    rw [List.length_cons]
    rcases h with ⟨move, _, rfl⟩ | h
    · simp only [Step.ofMove]
      omega
    · have := ih h
      omega

/-- The steps of a walk stand in the order of their places. -/
theorem pairwise_stepsFrom (first : Nat) (s : State) (lines : List Text) :
    (stepsFrom first s lines).Pairwise Step.Precedes := by
  induction lines generalizing first s with
  | nil => exact .nil
  | cons line lines ih =>
    rw [stepsFrom, Scan.moves_eq, List.pairwise_append, List.pairwise_map]
    refine ⟨?_, ih .., ?_⟩
    · exact (Scan.pairwise_movesFrom s 0 line).imp fun h => .inr ⟨rfl, h⟩
    · intro a ha b hb
      obtain ⟨move, _, rfl⟩ := List.mem_map.mp ha
      exact .inl (line_of_mem_stepsFrom hb).1

theorem pairwise_steps (lines : List Text) : (steps lines).Pairwise Step.Precedes :=
  pairwise_stepsFrom ..

end Walk

end CMakeSense
