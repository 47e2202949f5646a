import CMakeSense.Proofs.Query.Enclosing
import CMakeSense.Query.Cursor

/-! Requests that the cursor raises are requests that completion answers. The cursor scans its own
line from the state at the start of it, while completion walks the script from its top; both come
upon the same token (`Walk.ofMove_mem_steps`), which is then the one that the context finds at the
place that the request names (`Context.token?_atLine`). A word that raises a request stands outside
of argument lists, where the commands are offered, and a separator stands inside of one, so that
there are arguments to choose the strategy by. -/

namespace CMakeSense

namespace Walk

variable {lines : List Text} {line : Nat} {text : Text}

/-- The tokens of a line scanned from the state at its start are tokens of the script. -/
theorem ofMove_mem_steps {move : Move} (hline : lines[line]? = some text)
    (h : move ∈ Scan.moves (stateAt lines line) text) : Step.ofMove line move ∈ steps lines := by
  obtain ⟨hlt, hget⟩ := List.getElem?_eq_some_iff.mp hline
  rw [steps_eq_append lines (Nat.le_of_lt hlt), List.drop_eq_getElem_cons hlt, hget, stepsFrom]
  apply List.mem_append_right
  apply List.mem_append_left
  exact List.mem_map.mpr ⟨move, h, rfl⟩

/-- What is seen from the place of a step: the steps before it, and the step itself. -/
theorem exists_run_upTo_step {step : Step} (h : step ∈ steps lines) :
    ∃ earlier s, upTo lines step.line step.token.start = earlier ++ [step] ∧
      Run .start earlier s ∧ step.Scanned := by
  obtain ⟨earlier, hearlier⟩ := List.getLast?_eq_some_iff.mp (getLast?_upTo h rfl rfl)
  obtain ⟨t, run⟩ := exists_run_upTo lines step.line step.token.start
  rw [hearlier] at run
  obtain ⟨s, left, right⟩ := run.of_append
  cases right with
  | cons scanned _ => exact ⟨earlier, _, hearlier, left, scanned⟩

end Walk

namespace Step.Scanned

variable {step : Step}

/-- A word outside of argument lists does not open one. -/
theorem depth_after_word (h : step.Scanned) (word : step.token.kind.isWord = true)
    (outside : step.before.depth.val = 0) : step.after.depth.val = 0 := by
  have word : step.lexeme.kind.isWord = true := word
  cases h.effect with
  | opens _ _ kind =>
    rw [kind] at word
    cases word
  | closes _ kind =>
    rw [kind] at word
    cases word
  | names _ _ _ _ _ after =>
    have after : step.after = _ := after
    rw [after]
    exact outside
  | rests _ _ _ continues =>
    have depth : step.after.depth = step.before.depth := continues.depth
    rw [depth]
    exact outside
  | breaks _ _ _ _ _ _ continues =>
    have depth : step.after.depth = step.before.depth := continues.depth
    rw [depth]
    exact outside
  | stays inside => omega

/-- A blank that separates arguments lies within an argument list. -/
theorem depth_after_separator (h : step.Scanned) (blank : step.token.kind = .whiteSpace)
    (next : step.token.trigger.has .parameterNext = true) : 0 < step.after.depth.val := by
  have blank : step.lexeme.kind = .whiteSpace := blank
  have next : step.lexeme.trigger.has .parameterNext = true := next
  cases h.effect with
  | opens _ _ kind =>
    rw [kind] at blank
    cases blank
  | closes _ kind =>
    rw [kind] at blank
    cases blank
  | names _ _ word =>
    rw [blank] at word
    cases word
  | rests _ _ trigger =>
    rw [trigger, Trigger.has_none] at next
    cases next
  | breaks _ _ other => exact absurd blank other
  | stays _ _ _ within => exact within

end Step.Scanned

namespace Context

variable {lines : List Text} {line : Nat} {column : Int}

theorem depth_atLine (lines : List Text) (line : Nat) (column : Int) :
    (atLine lines line column).depth =
      ((Walk.upTo lines line column).foldl Trail.follow .start).state.depth := by
  unfold atLine
  simp only
  split
  · rfl
  · split
    · next outside => exact outside.symm
    · rfl
  · rfl

theorem token?_atLine_eq_find? (lines : List Text) (line : Nat) (column : Int) :
    (atLine lines line column).token? = ((Walk.upTo lines line column).find? fun step =>
      step.line = line && step.token.start = column).map (·.token) := by
  unfold atLine
  simp only
  split
  · rfl
  · next found =>
    rw [found]
    split <;> rfl
  · next none =>
    rw [none]
    rfl

/-- The context at the place of a step finds the token of the step. -/
theorem token?_atLine {step : Step} (h : step ∈ Walk.steps lines) :
    (atLine lines step.line step.token.start).token? = some step.token := by
  have last := Walk.getLast?_upTo h rfl rfl
  rw [token?_atLine_eq_find?]
  cases found : (Walk.upTo lines step.line step.token.start).find? fun other =>
      other.line = step.line && (other.token.start : Int) = step.token.start with
  | none =>
    have := List.find?_eq_none.mp found step (List.mem_of_getLast? last)
    simp at this
  | some other =>
    -- A step at this place is the last one seen, so there is no other.
    have place := List.find?_some found
    simp only [Bool.and_eq_true, decide_eq_true_eq] at place
    have seen := (Walk.mem_upTo.mp (List.mem_of_find?_eq_some found)).1
    have same := (Walk.getLast?_upTo seen place.1 place.2).symm.trans last
    rw [Option.some.inj same]
    rfl

/-- The context at the place of a step has the depth that the step leaves. -/
theorem depth_atLine_step {step : Step} (h : step ∈ Walk.steps lines) :
    (atLine lines step.line step.token.start).depth = step.after.depth := by
  obtain ⟨earlier, _, hearlier, _⟩ := Walk.exists_run_upTo_step h
  rw [depth_atLine, hearlier, List.foldl_append, List.foldl_cons, List.foldl_nil,
    Trail.state_follow]

end Context

namespace Cursor

variable {lines : List Text} {p : Position} {request : Request}

/-- A token that raises a request opens a list of candidates, or is a word outside of argument
lists. -/
def Raises (move : Move) : Prop :=
  opensList move.token.kind = true ∨
    move.token.kind.isWord = true ∧ move.before.insideParens = false

theorem exists_move_of_requestBehind? {line : Nat} {moves : List Move}
    (h : requestBehind? line moves = some request) :
    ∃ move ∈ moves, request = requestFor line move.token ∧ Raises move := by
  cases moves with
  | nil => cases h
  | cons current earlier =>
    simp only [requestBehind?] at h
    split at h
    · next opens =>
      cases h
      exact ⟨current, List.mem_cons_self, rfl, .inl opens⟩
    split at h
    · cases h
    next word =>
    have word : current.token.kind.isWord = true := by simpa using word
    split at h
    · next outside =>
      cases h
      exact ⟨current, List.mem_cons_self, rfl, .inr ⟨word, by simpa using outside⟩⟩
    split at h
    · next previous _ =>
      split at h
      · next follows =>
        cases h
        rw [Bool.and_eq_true] at follows
        exact ⟨previous, List.mem_cons_of_mem _ List.mem_cons_self, rfl, .inl follows.1⟩
      · cases h
    · cases h

/-- The token that a request of the cursor is for stands on its line, left of it. -/
theorem exists_move_of_request? (h : request? lines p = some request) :
    ∃ (line : Nat) (text : Text) (move : Move), p.line = line ∧ lines[line]? = some text ∧
      move ∈ Scan.moves (Walk.stateAt lines line) text ∧
      (move.token.start : Int) < p.column ∧ request = requestFor line move.token ∧
      Raises move := by
  unfold request? at h
  split at h
  · cases h
  next inside =>
  simp only [Bool.or_eq_true, decide_eq_true_eq, not_or] at inside
  simp only [Option.bind_eq_bind, Option.bind_eq_some_iff] at h
  obtain ⟨text, hline, h⟩ := h
  obtain ⟨move, member, rfl, raises⟩ := exists_move_of_requestBehind? h
  have member := List.mem_reverse.mp member
  have left := List.all_eq_true.mp List.all_takeWhile move member
  refine ⟨p.line.toNat, text, move, by omega, hline, ?_, by simpa using left, rfl, raises⟩
  exact (List.takeWhile_sublist _).subset member

/-- The context at the place that a request names. -/
theorem around_requestFor {line : Nat} {text : Text} {move : Move}
    (hline : lines[line]? = some text) (h : move ∈ Scan.moves (Walk.stateAt lines line) text) :
    (Context.around lines (requestFor line move.token).position).token? = some move.token ∧
      (Context.around lines (requestFor line move.token).position).depth = move.after.depth := by
  have member := Walk.ofMove_mem_steps hline h
  have hlt : line < lines.length := (List.getElem?_eq_some_iff.mp hline).1
  rw [requestFor, Context.around_eq_atLine (Position.lineIn?_of_lt hlt move.token.start)]
  exact ⟨Context.token?_atLine member, Context.depth_atLine_step member⟩

/-- The step of a token of a line is one that scanning finds. -/
theorem scanned_ofMove {line : Nat} {text : Text} {move : Move}
    (hline : lines[line]? = some text) (h : move ∈ Scan.moves (Walk.stateAt lines line) text) :
    (Step.ofMove line move).Scanned := by
  obtain ⟨_, _, _, _, scanned⟩ := Walk.exists_run_upTo_step (Walk.ofMove_mem_steps hline h)
  exact scanned

end Cursor

namespace Completion

variable {tree : FileTree} {source : Source} {request : Request} {token : Token}

/-- The commands are known wherever the names of other files are. -/
theorem isSome_commands? (h : source.symbols ≠ .failing) : (commands? source).isSome = true := by
  unfold commands?
  cases symbols : source.symbols with
  | absent => rfl
  | failing => exact absurd symbols h
  | known table => rfl

/-- A request for a token that is not an opener of a variable reference is answered by its
context. -/
theorem candidates?_eq_inContext? (htoken : request.token? = some token.kind)
    (hcontext : (Context.around source.lines request.position).token? = some token)
    (kind : token.kind.isWord = true ∨ token.kind = .whiteSpace) :
    candidates? tree source request =
      inContext? tree source (Context.around source.lines request.position) token := by
  unfold candidates?
  rw [htoken]
  split
  · contradiction
  · next same =>
    rw [Option.some.inj same] at kind
    simp [TokenKind.isWord] at kind
  · next same =>
    rw [Option.some.inj same] at kind
    simp [TokenKind.isWord] at kind
  · next same =>
    rw [Option.some.inj same] at kind
    simp [TokenKind.isWord] at kind
  · next same => simp [hcontext, ← Option.some.inj same]

theorem inContext?_of_isWord {context : Context} (word : token.kind.isWord = true)
    (outside : context.isInside = false) :
    inContext? tree source context token = commands? source := by
  unfold inContext?
  cases kind : token.kind <;> simp_all [TokenKind.isWord]

/-- After a separator the strategies for separators are asked, and no others. -/
theorem inContext?_of_separator {context : Context} {arguments : List Text}
    (blank : token.kind = .whiteSpace) (next : token.trigger.has .parameterNext = true)
    (shown : context.arguments? = some arguments) :
    inContext? tree source context token = context.command.bind fun command =>
      (Strategy.afterSpace? command).bind fun strategy =>
        strategy.run tree source command arguments := by
  unfold inContext?
  simp only [blank, next, shown]
  rfl

end Completion

namespace Cursor

/-- **Completion accepts what the cursor asks for.** A request of the cursor is for a token on its
line, left of it, and the context at the place that it names finds that very token. If the token is
a word, the place is outside of argument lists and the commands are offered, unless the names of
other files cannot be had. If it separates arguments, there is a list of those before it, and the
strategies for separators choose by it. -/
theorem request_accepted {lines : List Text} {p : Position} {request : Request}
    (h : request? lines p = some request) :
    request.position.line = p.line ∧ 0 ≤ request.position.column ∧
    request.position.column < p.column ∧
    ∃ text move, lines[p.line.toNat]? = some text ∧
      move ∈ Scan.moves (Walk.stateAt lines p.line.toNat) text ∧
      request.position.column = move.token.start ∧ request.token? = some move.token.kind ∧
      (Context.around lines request.position).token? = some move.token ∧
      (move.token.kind.isWord = true →
        (Context.around lines request.position).isInside = false ∧
        ∀ tree source, source.lines = lines → source.symbols ≠ .failing →
          (Completion.candidates? tree source request).isSome = true) ∧
      (move.token.kind = .whiteSpace → move.token.trigger.has .parameterNext = true →
        ∃ arguments, (Context.around lines request.position).arguments? = some arguments ∧
          ∀ tree source, source.lines = lines →
            Completion.candidates? tree source request =
              (Context.around lines request.position).command.bind fun command =>
                (Strategy.afterSpace? command).bind fun strategy =>
                  strategy.run tree source command arguments) := by
  obtain ⟨line, text, move, hp, hline, member, left, rfl, raises⟩ := exists_move_of_request? h
  obtain ⟨token, depth⟩ := around_requestFor hline member
  have scanned := scanned_ofMove hline member
  have same : p.line.toNat = line := by omega
  rw [same]
  refine ⟨hp.symm, Int.natCast_nonneg _, left, text, move, hline, member, rfl, rfl, token, ?_, ?_⟩
  · intro word
    have outside : move.before.depth.val = 0 := by
      rcases raises with opens | ⟨_, outside⟩
      · cases kind : move.token.kind <;> simp_all [opensList, TokenKind.isWord]
      · exact State.insideParens_eq_false (by simp [outside])
    have after : move.after.depth.val = 0 := scanned.depth_after_word word outside
    have inside :
        (Context.around lines (requestFor line move.token).position).isInside = false := by
      simp [Context.isInside, depth, after]
    refine ⟨inside, ?_⟩
    rintro tree source rfl known
    rw [Completion.candidates?_eq_inContext? rfl token (.inl word),
      Completion.inContext?_of_isWord word inside]
    exact Completion.isSome_commands? known
  · intro blank next
    have after : 0 < move.after.depth.val := scanned.depth_after_separator blank next
    have inside : (Context.around lines (requestFor line move.token).position).isInside = true := by
      simp [Context.isInside, depth, after]
    rw [(Context.isInside_iff lines _).1, Option.isSome_iff_exists] at inside
    obtain ⟨arguments, shown⟩ := inside
    refine ⟨arguments, shown, ?_⟩
    rintro tree source rfl
    rw [Completion.candidates?_eq_inContext? rfl token (.inr blank),
      Completion.inContext?_of_separator blank next shown]

/-- A word that is being written at the top of a script, and the separator behind an argument. -/
theorem request_accepted_for_word_and_separator :
    (∀ tree source, source.lines = [utf8 "f(x)", utf8 "add_library(A "] →
      source.symbols ≠ .failing →
        (Completion.candidates? tree source ⟨⟨0, 0⟩, some .identifier⟩).isSome = true) ∧
    ∃ arguments,
      (Context.around [utf8 "f(x)", utf8 "add_library(A "] ⟨1, 13⟩).arguments? = some arguments ∧
      ∀ tree source, source.lines = [utf8 "f(x)", utf8 "add_library(A "] →
        Completion.candidates? tree source ⟨⟨1, 13⟩, some .whiteSpace⟩ =
          (Context.around [utf8 "f(x)", utf8 "add_library(A "] ⟨1, 13⟩).command.bind fun command =>
            (Strategy.afterSpace? command).bind fun strategy =>
              strategy.run tree source command arguments := by
  constructor
  · have raised : request? [utf8 "f(x)", utf8 "add_library(A "] ⟨0, 1⟩ =
        some ⟨⟨0, 0⟩, some .identifier⟩ := by decide +kernel
    obtain ⟨_, _, _, _, move, _, _, _, kind, _, word, _⟩ := request_accepted raised
    exact (word (by rw [← Option.some.inj kind]; rfl)).2
  · have raised : request? [utf8 "f(x)", utf8 "add_library(A "] ⟨1, 14⟩ =
        some ⟨⟨1, 13⟩, some .whiteSpace⟩ := by decide +kernel
    obtain ⟨_, _, _, _, move, _, _, _, kind, found, _, separator⟩ := request_accepted raised
    have next : (Context.around [utf8 "f(x)", utf8 "add_library(A "] ⟨1, 13⟩).token?.any
        (·.trigger.has .parameterNext) = true := by decide +kernel
    rw [found] at next
    exact separator (Option.some.inj kind).symm next

end Cursor

end CMakeSense
