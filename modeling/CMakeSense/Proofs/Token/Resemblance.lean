import CMakeSense.Proofs.Token.Scanner
import CMakeSense.Token.Walk
import Mathlib.Data.List.Forall2

/-! What scanning goes by. The last command is part of the state and yet no token depends on it, nor
on the level of a comment that is not open: states that agree in the rest (`State.Resembles`) scan
every line into the same tokens (`Lexeme.next_resembles`). So do scans that begin at other offsets
or on other lines, but for the places of the tokens (`Walk.forall₂_stepsFrom`). -/

namespace CMakeSense

/-- The states agree in all that scanning goes by. -/
structure State.Resembles (s t : State) : Prop where
  depth : t.depth = s.depth
  awaitsParen : t.awaitsParen = s.awaitsParen
  inString : t.inString = s.inString
  inComment : t.inComment = s.inComment
  level : s.inComment = true → t.level = s.level

theorem State.Resembles.refl (s : State) : s.Resembles s := ⟨rfl, rfl, rfl, rfl, fun _ => rfl⟩

namespace Lexeme

/-- The tokens are the same, and the states after them scan alike. -/
structure Resembles (l m : Lexeme) : Prop where
  kind : m.kind = l.kind
  length : m.length = l.length
  trigger : m.trigger = l.trigger
  command : m.command = l.command
  after : l.after.Resembles m.after

section
variable {s t : State} (h : s.Resembles t)
include h

theorem stringBody_resembles (taken : Nat) (body : Text) :
    (stringBody s taken body).Resembles (stringBody t taken body) :=
  ⟨rfl, rfl, rfl, rfl, h.depth, h.awaitsParen, rfl, h.inComment, h.level⟩

theorem settled_resembles : s.settled.Resembles t.settled :=
  ⟨h.depth, rfl, h.inString, h.inComment, h.level⟩

theorem commentBody_resembles (comment : s.inComment = true) (taken : Nat) (body : Text) :
    (commentBody s taken body).Resembles (commentBody t taken body) := by
  have level := h.level comment
  unfold commentBody
  simp only [level]
  split
  · exact ⟨rfl, rfl, rfl, rfl, h.depth, h.awaitsParen, h.inString, rfl, fun _ => rfl⟩
  · exact ⟨rfl, rfl, rfl, rfl, h⟩

theorem comment_resembles (u : Text) : (comment s u).Resembles (comment t u) := by
  unfold comment
  split
  · next level _ =>
    have opened : ({ s with inComment := true }.withLevel level).Resembles
        ({ t with inComment := true }.withLevel level) :=
      ⟨h.depth, h.awaitsParen, h.inString, rfl, fun _ => rfl⟩
    exact commentBody_resembles opened rfl ..
  · exact ⟨rfl, rfl, rfl, rfl, h⟩

theorem blanks_resembles (u : Text) : (blanks s u).Resembles (blanks t u) := by
  refine ⟨rfl, rfl, ?_, rfl, h⟩
  simp only [blanks, h.depth]

theorem withDepth_resembles (n : Nat) : (s.withDepth n).Resembles (t.withDepth n) :=
  ⟨rfl, h.awaitsParen, h.inString, h.inComment, h.level⟩

theorem insideParens_eq : t.insideParens = s.insideParens := by
  rw [State.insideParens, State.insideParens, h.depth]

theorem openParen_resembles : (openParen s).Resembles (openParen t) := by
  unfold openParen
  rw [insideParens_eq h, h.awaitsParen, h.depth]
  split
  · exact ⟨rfl, rfl, rfl, rfl, withDepth_resembles h _⟩
  split
  · exact ⟨rfl, rfl, rfl, rfl, settled_resembles (withDepth_resembles h 1)⟩
  · exact ⟨rfl, rfl, rfl, rfl, h⟩

theorem closeParen_resembles : (closeParen s).Resembles (closeParen t) := by
  unfold closeParen
  rw [insideParens_eq h, h.depth]
  split
  · exact ⟨rfl, rfl, rfl, rfl, withDepth_resembles h _⟩
  · exact ⟨rfl, rfl, rfl, rfl, settled_resembles h⟩

theorem word_resembles (u : Text) : (word s u).Resembles (word t u) := by
  unfold word
  rw [insideParens_eq h]
  simp only
  split
  · exact ⟨rfl, rfl, rfl, rfl, h⟩
  · exact ⟨rfl, rfl, rfl, rfl, h.depth, rfl, h.inString, h.inComment, h.level⟩

/-- States that agree in all that scanning goes by scan to the same token. -/
theorem next_resembles (c : UInt8) (u : Text) : (next s c u).Resembles (next t c u) := by
  unfold next
  rw [h.inComment, h.inString]
  split
  · next comment => exact commentBody_resembles h comment ..
  split
  · exact stringBody_resembles h ..
  split
  · exact comment_resembles h u
  split
  · exact blanks_resembles h _
  split
  · exact stringBody_resembles (settled_resembles h) ..
  split
  · exact openParen_resembles h
  split
  · exact closeParen_resembles h
  split
  · exact ⟨rfl, rfl, rfl, rfl, settled_resembles h⟩
  split
  · exact ⟨rfl, rfl, rfl, rfl, settled_resembles h⟩
  · exact word_resembles h _

end

end Lexeme

/-- The tokens read alike, wherever they stand. -/
structure Move.Alike (a b : Move) : Prop where
  kind : b.token.kind = a.token.kind
  trigger : b.token.trigger = a.token.trigger
  command : b.token.command = a.token.command
  text : b.tokenText = a.tokenText
  depth : b.before.depth = a.before.depth
  inString : b.before.inString = a.before.inString

/-- The step `b` reads like the step `a`, which stands `n` lines above it. -/
structure Step.Shifted (n : Nat) (a b : Step) : Prop where
  line : b.line = a.line + n
  kind : b.token.kind = a.token.kind
  trigger : b.token.trigger = a.token.trigger
  command : b.token.command = a.token.command
  text : b.tokenText = a.tokenText
  depth : b.before.depth = a.before.depth
  inString : b.before.inString = a.before.inString

theorem Move.Alike.shifted {a b : Move} (h : a.Alike b) (line n : Nat) :
    (Step.ofMove line a).Shifted n (Step.ofMove (line + n) b) :=
  ⟨rfl, h.kind, h.trigger, h.command, h.text, h.depth, h.inString⟩

theorem Step.Shifted.refl (step : Step) : step.Shifted 0 step := ⟨rfl, rfl, rfl, rfl, rfl, rfl, rfl⟩

namespace Scan

variable {s t : State}

theorem alike_of_resembles {l m : Lexeme} (h : s.Resembles t) (same : l.Resembles m)
    (rest : Text) (o p : Nat) :
    Move.Alike ⟨l.token o, rest, s, l.after⟩ ⟨m.token p, rest, t, m.after⟩ where
  kind := same.kind
  trigger := same.trigger
  command := same.command
  text := by simp [Move.tokenText, Lexeme.token, Token.length, same.length]
  depth := h.depth
  inString := h.inString

/-- A rest of a line has the same tokens from states that scan alike, at any offset. -/
theorem forall₂_movesFrom (h : s.Resembles t) (o p : Nat) (rest : Text) :
    List.Forall₂ Move.Alike (movesFrom s o rest) (movesFrom t p rest) ∧
      (final s (movesFrom s o rest)).Resembles (final t (movesFrom t p rest)) := by
  fun_induction movesFrom s o rest generalizing t p with
  | case1 s o =>
    rw [movesFrom]
    exact ⟨.nil, h⟩
  | case2 s o c u lexeme =>
    rename_i ih
    have same := Lexeme.next_resembles h c u
    obtain ⟨moves, last⟩ := ih same.after (p + (Lexeme.next t c u).length)
    rw [movesFrom, same.length]
    rw [same.length] at moves last
    exact ⟨.cons (alike_of_resembles h same ..) moves, last⟩

/-- From states that scan alike, the tokens of a line also stand in the same places. -/
theorem tokens_eq_of_resembles (h : s.Resembles t) (o : Nat) (rest : Text) :
    (movesFrom t o rest).map (·.token) = (movesFrom s o rest).map (·.token) := by
  fun_induction movesFrom s o rest generalizing t with
  | case1 => rw [movesFrom]
  | case2 s o c u lexeme =>
    rename_i ih
    have same := Lexeme.next_resembles h c u
    have token : (Lexeme.next t c u).token o = (Lexeme.next s c u).token o := by
      simp only [Lexeme.token, same.kind, same.length, same.trigger, same.command]
    rw [movesFrom, List.map_cons, List.map_cons, token, same.length, ih same.after]

end Scan

namespace Walk

variable {s t : State}

/-- Lines scanned from states that scan alike, further down in a script. -/
theorem forall₂_stepsFrom (h : s.Resembles t) (first n : Nat) (lines : List Text) :
    List.Forall₂ (Step.Shifted n) (stepsFrom first s lines) (stepsFrom (first + n) t lines) := by
  induction lines generalizing s t first with
  | nil => exact .nil
  | cons line lines ih =>
    obtain ⟨moves, last⟩ := Scan.forall₂_movesFrom h 0 0 line
    rw [stepsFrom, stepsFrom, Scan.moves_eq, Scan.moves_eq, Scan.stateAfter_eq, Scan.stateAfter_eq]
    refine List.rel_append ?_ ?_
    · rw [List.forall₂_map_left_iff, List.forall₂_map_right_iff]
      exact moves.imp fun a b alike => alike.shifted first n
    · rw [Nat.add_right_comm]
      exact ih last (first + 1)

theorem tokens_stepsFrom_eq (h : s.Resembles t) (first other : Nat) (lines : List Text) :
    (stepsFrom other t lines).map (·.token) = (stepsFrom first s lines).map (·.token) := by
  induction lines generalizing s t first other with
  | nil => rfl
  | cons line lines ih =>
    have tokens := Scan.tokens_eq_of_resembles h 0 line
    have last := (Scan.forall₂_movesFrom h 0 0 line).2
    rw [← Scan.stateAfter_eq, ← Scan.stateAfter_eq] at last
    rw [stepsFrom, stepsFrom, List.map_append, List.map_append, ih last (first + 1) (other + 1),
      Scan.moves_eq, Scan.moves_eq]
    congr 1
    rw [List.map_map, List.map_map]
    exact tokens

end Walk

end CMakeSense
