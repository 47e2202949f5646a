import CMakeSense.Proofs.Token.Resuming

/-! Scanning from between two tokens. What scanning reads of a line behind some of its tokens does
not depend on how it came there: from the state behind them, the rest of the line has the tokens
that the line has there, and leaves the same state (`Scan.movesFrom_add`, `Scan.eq_movesFrom_rest`).
Nor does a line depend on more of the lines above it than the state that they leave, which is the
state at its start (`Walk.filter_line_steps`). -/

namespace CMakeSense

/-- The same token `n` bytes further to the right. -/
def Token.shift (n : Nat) (token : Token) : Token :=
  { token with start := token.start + n, stop := token.stop + n }

namespace Scan

/-- The offset behind some moves from the start of a line. -/
def offsetAfter (moves : List Move) : Nat := moves.foldl (fun _ move => move.token.stop) 0

/-- A rest of a line that starts further to the right has its tokens further to the right. -/
theorem movesFrom_add (s : State) (offset n : Nat) (rest : Text) :
    movesFrom s (offset + n) rest =
      (movesFrom s offset rest).map fun move => { move with token := move.token.shift n } := by
  fun_induction movesFrom s offset rest with
  | case1 => rw [movesFrom, List.map_nil]
  | case2 s offset c t lexeme ih =>
    have token : lexeme.token (offset + n) = (lexeme.token offset).shift n := by
      simp only [Lexeme.token, Token.shift, Nat.add_right_comm]
    rw [movesFrom, List.map_cons, ← ih, Nat.add_right_comm, ← token]

theorem final_movesFrom_add (s : State) (offset n : Nat) (rest : Text) :
    final s (movesFrom s (offset + n) rest) = final s (movesFrom s offset rest) := by
  rw [movesFrom_add, final, List.foldl_map]
  rfl

theorem eq_movesFrom_rest {s : State} {line : Text} {front behind : List Move}
    (split : moves s line = front ++ behind) :
    behind = movesFrom (final s front) (offsetAfter front) (line.drop (offsetAfter front)) := by
  rcases front.eq_nil_or_concat with rfl | ⟨early, last, rfl⟩
  · rw [moves_eq] at split
    exact split.symm
  · rw [List.concat_eq_append] at split ⊢
    have here := eq_movesFrom_behind (split.trans (List.append_cons early last behind).symm)
    simpa [final, offsetAfter] using here

/-- The states before the tokens of a line, and then the one behind them, are the state that the
line is scanned from and then those after its tokens. -/
theorem before_concat_final (s : State) (offset : Nat) (rest : Text) :
    (movesFrom s offset rest).map (·.before) ++ [final s (movesFrom s offset rest)] =
      s :: (movesFrom s offset rest).map (·.after) := by
  fun_induction movesFrom s offset rest with
  | case1 => rfl
  | case2 s offset c t lexeme ih =>
    rw [List.map_cons, List.map_cons, List.cons_append]
    exact congrArg (s :: ·) ih

end Scan

namespace Walk

/-- The steps on a line are those of the line scanned from the state at its start. -/
theorem filter_line_steps {lines : List Text} {n : Nat} {text : Text} (h : lines[n]? = some text) :
    (steps lines).filter (·.line = n) =
      (Scan.moves (stateAt lines n) text).map (Step.ofMove n) := by
  obtain ⟨bound, here⟩ := List.getElem?_eq_some_iff.mp h
  have above : (steps (lines.take n)).filter (·.line = n) = [] := by
    refine List.filter_eq_nil_iff.mpr fun step member => ?_
    have := (line_of_mem_stepsFrom member).2
    rw [List.length_take] at this
    simp only [decide_eq_true_iff]
    omega
  have onLine : ((Scan.moves (stateAt lines n) text).map (Step.ofMove n)).filter (·.line = n) =
      (Scan.moves (stateAt lines n) text).map (Step.ofMove n) := by
    refine List.filter_eq_self.mpr fun step member => ?_
    obtain ⟨move, _, rfl⟩ := List.mem_map.mp member
    exact decide_eq_true rfl
  have below : (stepsFrom (n + 1) (Scan.stateAfter (stateAt lines n) text)
      (lines.drop (n + 1))).filter (·.line = n) = [] := by
    refine List.filter_eq_nil_iff.mpr fun step member => ?_
    have := (line_of_mem_stepsFrom member).1
    simp only [decide_eq_true_iff]
    omega
  rw [steps_eq_append lines (Nat.le_of_lt bound), List.drop_eq_getElem_cons bound, here, stepsFrom,
    List.filter_append, List.filter_append, above, onLine, below, List.append_nil, List.nil_append]

end Walk

namespace Scan

/-- The rest of a line has the remaining tokens, counted from where it begins. -/
theorem tokens_rest {s : State} {line : Text} {front behind : List Move}
    (split : moves s line = front ++ behind) :
    (tokens (final s front) (line.drop (offsetAfter front))).map
      (Token.shift (offsetAfter front)) = behind.map (·.token) := by
  have rest := eq_movesFrom_rest split
  rw [← Nat.zero_add (offsetAfter front), movesFrom_add, Nat.zero_add] at rest
  rw [rest, tokens_eq, List.map_map, List.map_map]
  rfl

theorem stateAfter_rest {s : State} {line : Text} {front behind : List Move}
    (split : moves s line = front ++ behind) :
    stateAfter (final s front) (line.drop (offsetAfter front)) = stateAfter s line := by
  have whole : stateAfter s line = final (final s front) behind := by
    rw [stateAfter, split, final, List.foldl_append]
    rfl
  rw [whole, eq_movesFrom_rest split, ← Nat.zero_add (offsetAfter front), final_movesFrom_add,
    Nat.zero_add, stateAfter_eq]

/-- **Scanning can be taken up between any two tokens and at any line.** Behind some tokens of a
line, the rest of it scanned from the state reached there has the remaining tokens, counted from
there, and leaves the state that the line leaves. The state at the start of a line is the one that
walking the lines above leaves, and the steps on the line are its tokens scanned from that state,
each of them from the state after the one before it. -/
theorem scanning_resumes :
    (∀ (s : State) (line : Text) (front behind : List Move), moves s line = front ++ behind →
      let p := offsetAfter front
      let t := final s front
      (tokens t (line.drop p)).map (Token.shift p) = behind.map (·.token) ∧
        stateAfter t (line.drop p) = stateAfter s line) ∧
    ∀ (lines : List Text) (n : Nat),
      Walk.stateAt lines n = Walk.final (Walk.steps (lines.take n)) ∧
      ∀ text, lines[n]? = some text →
        let s := Walk.stateAt lines n
        let here := (Walk.steps lines).filter (·.line = n)
        here = (moves s text).map (Step.ofMove n) ∧
          here.map (·.token) = tokens s text ∧
          here.map (·.before) ++ [stateAfter s text] = s :: here.map (·.after) := by
  refine ⟨fun s line front behind split => ⟨tokens_rest split, stateAfter_rest split⟩, ?_⟩
  intro lines n
  refine ⟨(Walk.final_steps _).symm, fun text line => ?_⟩
  intro s here
  have steps : here = (moves s text).map (Step.ofMove n) := Walk.filter_line_steps line
  refine ⟨steps, ?_, ?_⟩
  · rw [steps, List.map_map]
    rfl
  · rw [steps, List.map_map, List.map_map, moves_eq, stateAfter_eq]
    exact before_concat_final s 0 text

/-- Behind the parenthesis of a call, and on the line below, which begins inside of a string. -/
theorem scanning_resumes_inside_call :
    let line := utf8 "set(A \"(x"
    let below := utf8 "y)\" #[=[ ]=] B)"
    let front := (moves .start line).take 2
    let behind := (moves .start line).drop 2
    let s := Walk.stateAt [line, below] 1
    let here := (Walk.steps [line, below]).filter (·.line = 1)
    moves .start line = front ++ behind ∧ offsetAfter front = 4 ∧
      (final .start front).depth = 1 ∧ behind.length = 3 ∧
      (tokens (final .start front) (utf8 "A \"(x")).map (Token.shift 4) = behind.map (·.token) ∧
      stateAfter (final .start front) (utf8 "A \"(x") = stateAfter .start line ∧
      s.inString = true ∧ here.length = 6 ∧ here.map (·.token) = tokens s below ∧
      here.map (·.before) ++ [stateAfter s below] = s :: here.map (·.after) := by
  intro line below front behind s here
  have split : moves .start line = front ++ behind := (List.take_append_drop 2 _).symm
  have offset : offsetAfter front = 4 := by decide +kernel
  obtain ⟨rest, walk⟩ := scanning_resumes
  obtain ⟨remaining, last⟩ := rest .start line front behind split
  rw [offset] at remaining last
  obtain ⟨_, steps⟩ := walk [line, below] 1
  obtain ⟨_, onLine, threaded⟩ := steps below rfl
  exact ⟨split, offset, by decide +kernel, by decide +kernel, remaining, last, by decide +kernel,
    by decide +kernel, onLine, threaded⟩

end Scan

end CMakeSense
