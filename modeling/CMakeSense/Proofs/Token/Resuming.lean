import CMakeSense.Proofs.Token.Tiling
import CMakeSense.Proofs.Token.Walk

/-! Taking up scanning at a token. The tokens of a line from one of them on are those of the rest of
the line scanned in the state before it (`Scan.eq_movesFrom_of_split`), and the steps of a script
from one of them on are those of the rest of its line and of the lines that follow
(`Walk.eq_stepsAt_of_split`). -/

namespace CMakeSense

/-- A place in a script: a line, counted from zero, and a byte offset in it. -/
structure Spot where
  line : Nat
  column : Nat

/-- The byte at the spot belongs to the token of the step. -/
def Step.Covers (step : Step) (spot : Spot) : Prop :=
  step.line = spot.line ∧ step.token.start ≤ spot.column ∧ spot.column < step.token.stop

theorem Token.contains_iff {token : Token} {column : Int} :
    token.contains column = true ↔ (token.start : Int) ≤ column ∧ column < token.stop := by
  rw [contains, ByteRange.contains, Bool.and_eq_true, decide_eq_true_iff, decide_eq_true_iff]
  exact Iff.rfl

/-- The token at a column of a line is the only one there. -/
theorem Scan.find?_contains {s : State} {offset : Nat} {rest : Text} {move : Move} {column : Int}
    (h : move ∈ movesFrom s offset rest) (inside : move.token.contains column = true) :
    (movesFrom s offset rest).find? (·.token.contains column) = some move := by
  fun_induction movesFrom s offset rest with
  | case1 => cases h
  | case2 s offset c t lexeme ih =>
    rcases List.mem_cons.mp h with rfl | later
    · exact List.find?_cons_of_pos inside
    · have start := le_start_of_mem_movesFrom later
      have outside : ¬(lexeme.token offset).contains column = true := by
        rw [Token.contains_iff] at inside ⊢
        simp only [Lexeme.token]
        omega
      rw [List.find?_cons, Bool.eq_false_iff.mpr outside]
      exact ih later

theorem Scan.eq_movesFrom_of_split {s : State} {offset : Nat} {rest : Text}
    {before after : List Move} {move : Move}
    (split : movesFrom s offset rest = before ++ move :: after) :
    offset ≤ move.token.start ∧ move.rest = rest.drop (move.token.start - offset) ∧
      move :: after = movesFrom move.before move.token.start move.rest := by
  fun_induction movesFrom s offset rest generalizing before with
  | case1 => cases before <;> cases split
  | case2 s offset c t lexeme =>
    rename_i ih
    cases before with
    | nil =>
      obtain ⟨rfl, rfl⟩ := List.cons.inj split
      refine ⟨Nat.le_refl _, ?_, ?_⟩
      · simp [Lexeme.token]
      · rw [movesFrom]
        rfl
    | cons first before =>
      obtain ⟨_, split⟩ := List.cons.inj split
      obtain ⟨later, hrest, moves⟩ := ih split
      refine ⟨by omega, ?_, moves⟩
      rw [hrest, List.drop_drop]
      congr 1
      omega

/-- The tokens behind one of them are those of what follows it. -/
theorem Scan.eq_movesFrom_behind {s : State} {text : Text} {front behind : List Move} {move : Move}
    (split : moves s text = front ++ move :: behind) :
    behind = movesFrom move.after move.token.stop (text.drop move.token.stop) := by
  rw [moves_eq] at split
  obtain ⟨_, rest, moves⟩ := eq_movesFrom_of_split split
  rw [Nat.sub_zero] at rest
  cases bytes : move.rest with
  | nil =>
    rw [bytes, movesFrom] at moves
    cases moves
  | cons c t =>
    rw [bytes, movesFrom] at moves
    obtain ⟨here, later⟩ := List.cons.inj moves
    have token := congrArg Move.token here
    have after := congrArg Move.after here
    rw [later, after, token, ← bytes, rest, List.drop_drop]
    rfl

/-- The bytes of a token of a line. -/
theorem Scan.text_eq_tokenText {s : State} {line : Text} {move : Move} (h : move ∈ moves s line) :
    move.token.text line = move.tokenText := by
  rw [moves_eq] at h
  obtain ⟨before, after, split⟩ := List.append_of_mem h
  obtain ⟨_, hrest, _⟩ := eq_movesFrom_of_split split
  obtain ⟨c, t, hline, htoken⟩ := mem_movesFrom rfl h
  have stop : move.token.stop = move.token.start + (Lexeme.next move.before c t).length := by
    rw [htoken]
    rfl
  have within := Lexeme.next_length_le move.before c t
  have positive := Lexeme.next_length_pos move.before c t
  rw [← hline, List.length_drop] at within
  rw [Token.text_eq_take (by omega) (by omega), Move.tokenText, hrest, Nat.sub_zero]

namespace Walk

theorem stepsAt_cons {s : State} {c : UInt8} {t : Text} {lexeme : Lexeme}
    (next : Lexeme.next s c t = lexeme) (line column : Nat) (lines : List Text) :
    stepsAt line s column (c :: t) lines =
      Step.ofMove line ⟨lexeme.token column, c :: t, s, lexeme.after⟩ ::
        stepsAt line lexeme.after (column + lexeme.length) ((c :: t).drop lexeme.length) lines := by
  subst next
  rw [stepsAt, Scan.movesFrom]
  rfl

/-- From every step of a walk on, the walk is the one that starts there. -/
theorem eq_stepsAt_of_split {first : Nat} {s : State} {lines : List Text} {before after : List Step}
    {step : Step} (split : stepsFrom first s lines = before ++ step :: after) :
    ∃ k text, step.line = first + k ∧ lines[k]? = some text ∧
      step.rest = text.drop step.token.start ∧
      step :: after = stepsAt step.line step.before step.token.start step.rest
        (lines.drop (k + 1)) := by
  induction lines generalizing first s before with
  | nil => cases before <;> cases split
  | cons text lines ih =>
    rw [stepsFrom] at split
    have cases : (∃ early, stepsFrom (first + 1) (Scan.stateAfter s text) lines =
          early ++ step :: after) ∨
        ∃ behind, (Scan.moves s text).map (Step.ofMove first) = before ++ step :: behind ∧
          after = behind ++ stepsFrom (first + 1) (Scan.stateAfter s text) lines := by
      rcases List.append_eq_append_iff.mp split with ⟨early, _, later⟩ | ⟨behind, here, rest⟩
      · exact .inl ⟨early, later⟩
      · cases behind with
        | nil => exact .inl ⟨[], rest.symm⟩
        | cons step' behind =>
          obtain ⟨rfl, rfl⟩ := List.cons.inj rest
          exact .inr ⟨behind, here, rfl⟩
    rcases cases with ⟨early, later⟩ | ⟨behind, here, rfl⟩
    · obtain ⟨k, text', hline, htext, hrest, steps⟩ := ih later
      exact ⟨k + 1, text', by omega, htext, hrest, steps⟩
    · obtain ⟨xs, ys, hmoves, _, hys⟩ := List.map_eq_append_iff.mp here
      obtain ⟨move, zs, rfl, rfl, rfl⟩ := List.map_eq_cons_iff.mp hys
      have last : Scan.stateAfter s text = Scan.final move.before (move :: zs) := by
        rw [Scan.stateAfter, hmoves]
        simp [Scan.final]
      rw [Scan.moves_eq] at hmoves
      obtain ⟨_, hrest, moves⟩ := Scan.eq_movesFrom_of_split hmoves
      refine ⟨0, text, rfl, rfl, hrest, ?_⟩
      simp only [Step.ofMove, stepsAt, ← moves, last]
      rfl

/-- A step of a script is a token of its line, scanned from the state at the start of it. -/
theorem exists_move_of_mem_steps {lines : List Text} {step : Step} (h : step ∈ steps lines) :
    ∃ text, lines[step.line]? = some text ∧
      ∃ move ∈ Scan.moves (stateAt lines step.line) text, step = Step.ofMove step.line move := by
  have bound := (line_of_mem_stepsFrom h).2
  rw [Nat.zero_add] at bound
  rw [steps_eq_append lines (Nat.le_of_lt bound), List.drop_eq_getElem_cons bound, stepsFrom] at h
  refine ⟨_, List.getElem?_eq_getElem bound, ?_⟩
  rcases List.mem_append.mp h with above | h
  · have := (line_of_mem_stepsFrom above).2
    rw [List.length_take] at this
    omega
  rcases List.mem_append.mp h with here | below
  · obtain ⟨move, member, same⟩ := List.mem_map.mp here
    exact ⟨move, member, same.symm⟩
  · exact absurd (line_of_mem_stepsFrom below).1 (Nat.not_succ_le_self _)

/-- A byte belongs to one token. -/
theorem eq_of_covers {lines : List Text} {a b : Step} {spot : Spot} (ha : a ∈ steps lines)
    (hb : b ∈ steps lines) (covers : a.Covers spot) (covers' : b.Covers spot) : a = b := by
  obtain ⟨text, htext, move, member, hmove⟩ := exists_move_of_mem_steps ha
  obtain ⟨text', htext', move', member', hmove'⟩ := exists_move_of_mem_steps hb
  obtain ⟨line, start, stop⟩ := covers
  obtain ⟨line', start', stop'⟩ := covers'
  rw [line] at htext member hmove
  rw [line'] at htext' member' hmove'
  cases htext.symm.trans htext'
  have inside : move.token.contains spot.column = true := by
    have token : move.token = a.token := by rw [hmove]; rfl
    rw [Token.contains_iff, token]
    omega
  have inside' : move'.token.contains spot.column = true := by
    have token : move'.token = b.token := by rw [hmove']; rfl
    rw [Token.contains_iff, token]
    omega
  rw [Scan.moves_eq] at member member'
  have same := (Scan.find?_contains member inside).symm.trans (Scan.find?_contains member' inside')
  rw [hmove, hmove', Option.some.inj same]

end Walk

end CMakeSense
