import CMakeSense.Proofs.Token.Walk

/-! The argument lists of a walk. A step opens a list exactly when it leads from outside of
parentheses to inside, and closes one exactly when it leads back (`Step.Scanned.opensList_iff`,
`Step.Scanned.closesList_iff`), so the two alternate and depth is positive just between them. Which
tokens separate arguments and which are keywords is settled by `Lexeme.Labelled`, and the word whose
parenthesis opens a list is the last one before it (`Walk.Run.exists_awaiting`), which stays the
last command named until the list is closed. -/

namespace CMakeSense

namespace Lexeme

/-- The labels of the token `l` at the head of `rest`, scanned in the state `s`. -/
structure Labelled (s : State) (rest : Text) (l : Lexeme) : Prop where
  separates : l.trigger.has .parameterNext = true ↔ l.kind = .whiteSpace ∧ s.depth.val = 1
  keyword : l.kind = .keyword ↔ l.kind.isWord = true ∧ s.depth.val = 0 ∧
    (Command.ofName? (rest.take l.length)).isSome = true
  command : l.command = if l.kind = .keyword then Command.ofName? (rest.take l.length) else none

/-- A token that is neither a word nor a blank carries no label. -/
private theorem Labelled.of_mark {s : State} {rest : Text} {l : Lexeme}
    (word : l.kind.isWord = false) (blank : l.kind ≠ .whiteSpace)
    (next : l.trigger.has .parameterNext = false) (command : l.command = none) :
    Labelled s rest l := by
  have plain : l.kind ≠ .keyword := by
    intro keyword
    rw [keyword] at word
    cases word
  refine ⟨?_, ?_, ?_⟩
  · simp [next, blank]
  · simp [word, plain]
  · rw [if_neg plain, command]

theorem commentBody_labelled (s u : State) (rest body : Text) (taken : Nat) :
    Labelled s rest (commentBody u taken body) := by
  unfold commentBody
  simp only
  split
  · exact .of_mark rfl (by simp) (by simp) rfl
  · exact .of_mark rfl (by simp) (by simp) rfl

theorem comment_labelled (s : State) (rest t : Text) : Labelled s rest (comment s t) := by
  unfold comment
  split
  · exact commentBody_labelled ..
  · exact .of_mark rfl (by simp) (by simp) rfl

theorem stringBody_labelled (s u : State) (rest body : Text) (taken : Nat) :
    Labelled s rest (stringBody u taken body) :=
  .of_mark rfl (by simp [stringBody]) (by simp [stringBody]) rfl

theorem blanks_labelled (s : State) (rest t : Text) : Labelled s rest (blanks s t) := by
  refine ⟨?_, ?_, rfl⟩
  · by_cases inner : s.depth.val = 1
    · have separates : (Trigger.union .parameterNext .memberSelect).has .parameterNext = true := rfl
      simp [blanks, inner, separates]
    · simp [blanks, inner]
  · simp [blanks, TokenKind.isWord]

theorem openParen_labelled (s : State) (rest : Text) : Labelled s rest (openParen s) := by
  unfold openParen
  split
  · exact .of_mark rfl (by simp) (by simp) rfl
  split
  · have next : (Trigger.union .parameterStart .memberSelect).has .parameterNext = false := rfl
    exact .of_mark rfl (by simp) next rfl
  · exact .of_mark rfl (by simp) (by simp) rfl

theorem closeParen_labelled (s : State) (rest : Text) : Labelled s rest (closeParen s) := by
  unfold closeParen
  split
  · refine .of_mark rfl (by simp) ?_ rfl
    dsimp only
    split <;> rfl
  · exact .of_mark rfl (by simp) (by simp) rfl

theorem word_labelled (s : State) (rest : Text) : Labelled s rest (word s rest) := by
  unfold word
  simp only
  split
  · next inside =>
    rw [State.insideParens_iff] at inside
    refine ⟨by simp, ?_, rfl⟩
    have outside : s.depth.val ≠ 0 := Nat.ne_of_gt inside
    simp [outside]
  · next outside =>
    have outside := State.insideParens_eq_false outside
    cases known : Command.ofName? (rest.take (wordLength rest)) with
    | none => exact ⟨by simp, by simp [known], rfl⟩
    | some command => exact ⟨by simp, by simp [known, outside, TokenKind.isWord], by simp [known]⟩

/-- Every token has the labels that are due to it. -/
theorem next_labelled (s : State) (c : UInt8) (t : Text) : Labelled s (c :: t) (next s c t) := by
  unfold next
  split
  · exact commentBody_labelled ..
  split
  · exact stringBody_labelled ..
  split
  · exact comment_labelled ..
  split
  · exact blanks_labelled ..
  split
  · exact stringBody_labelled ..
  split
  · exact openParen_labelled ..
  split
  · exact closeParen_labelled ..
  split
  · exact .of_mark rfl (by simp) (by simp) rfl
  split
  · next opener =>
    obtain ⟨word, blank, _⟩ := opener?_kind opener
    have next : Trigger.memberSelect.has .parameterNext = false := rfl
    exact .of_mark word blank next rfl
  · exact word_labelled ..

end Lexeme

namespace Step

/-- Whether a step opens or closes an argument list. -/
def isBound (step : Step) : Bool := step.opensList || step.closesList

namespace Scanned

variable {step : Step}

theorem labelled (h : step.Scanned) : step.lexeme.Labelled step.before step.rest := by
  obtain ⟨_, c, t, hrest, hnext⟩ := h
  rw [hrest, hnext]
  exact Lexeme.next_labelled ..

/-- What a step does to argument lists shows in the depths before and after it. -/
theorem bounds (h : step.Scanned) :
    (step.opensList = true ↔ step.before.depth.val = 0 ∧ 0 < step.after.depth.val) ∧
      (step.closesList = true ↔ 0 < step.before.depth.val ∧ step.after.depth.val = 0) := by
  have unbound (start : step.opensList = false) (stop : step.closesList = false)
      (same : 0 < step.before.depth.val ↔ 0 < step.after.depth.val) :
      (step.opensList = true ↔ step.before.depth.val = 0 ∧ 0 < step.after.depth.val) ∧
        (step.closesList = true ↔ 0 < step.before.depth.val ∧ step.after.depth.val = 0) := by
    rw [start, stop]
    simp only [Bool.false_eq_true, false_iff]
    omega
  have quiet (trigger : step.lexeme.trigger = .none) (flag : Trigger) :
      step.token.trigger.has flag = false :=
    (congrArg (Trigger.has · flag) trigger).trans (Trigger.has_none flag)
  cases h.effect with
  | opens outside _ _ trigger after =>
    have start : step.opensList = true := congrArg (Trigger.has · .parameterStart) trigger
    have stop : step.closesList = false := congrArg (Trigger.has · .parameterEnd) trigger
    have inside : step.after.depth.val = 1 := congrArg (·.depth.val) after
    simp [start, stop, outside, inside]
  | closes inner _ trigger after =>
    have start : step.opensList = false := congrArg (Trigger.has · .parameterStart) trigger
    have stop : step.closesList = true := congrArg (Trigger.has · .parameterEnd) trigger
    have outside : step.after.depth.val = 0 := congrArg (·.depth.val) after
    simp [start, stop, inner, outside]
  | names outside _ _ trigger _ after =>
    have same : step.after.depth = step.before.depth := by
      rw [show step.after = _ from after]
      rfl
    exact unbound (quiet trigger _) (quiet trigger _) (by rw [same])
  | rests _ _ trigger continues _ _ =>
    have same : step.after.depth = step.before.depth := continues.depth
    exact unbound (quiet trigger _) (quiet trigger _) (by rw [same])
  | breaks _ _ _ _ start stop continues _ =>
    have same : step.after.depth = step.before.depth := continues.depth
    exact unbound start stop (by rw [same])
  | stays inside start stop within _ _ =>
    exact unbound start stop ⟨fun _ => within, fun _ => inside⟩

theorem opensList_iff (h : step.Scanned) :
    step.opensList = true ↔ step.before.depth.val = 0 ∧ 0 < step.after.depth.val := h.bounds.1

theorem closesList_iff (h : step.Scanned) :
    step.closesList = true ↔ 0 < step.before.depth.val ∧ step.after.depth.val = 0 := h.bounds.2

/-- Inside an argument list no command is named. -/
theorem lastCommand_of_inside (h : step.Scanned) (inside : 0 < step.before.depth.val) :
    step.after.lastCommand = step.before.lastCommand := by
  cases h.effect with
  | closes _ _ _ after =>
    rw [show step.after = _ from after]
    rfl
  | stays _ _ _ _ lastCommand _ => exact lastCommand
  | _ => omega

/-- The parenthesis that opens an argument list is awaited, and leads directly inside. -/
theorem after_of_opensList (h : step.Scanned) (opens : step.opensList = true) :
    step.before.awaitsParen = true ∧ step.after = (step.before.withDepth 1).settled := by
  obtain ⟨outside, inside⟩ := h.opensList_iff.mp opens
  cases h.effect with
  | opens _ awaited _ _ after => exact ⟨awaited, after⟩
  | names _ _ _ _ _ after =>
    rw [show step.after = _ from after] at inside
    exact absurd outside (Nat.ne_of_gt inside)
  | rests _ _ _ continues _ _ | breaks _ _ _ _ _ _ continues _ =>
    rw [show step.after.depth = step.before.depth from continues.depth] at inside
    exact absurd outside (Nat.ne_of_gt inside)
  | closes | stays => omega

theorem awaited_of_opensList (h : step.Scanned) (opens : step.opensList = true) :
    step.before.awaitsParen = true ∧ step.after.lastCommand = step.before.lastCommand := by
  obtain ⟨awaited, after⟩ := h.after_of_opensList opens
  rw [after]
  exact ⟨awaited, rfl⟩

/-- A word awaits its parenthesis after a step that names it, or one that may stand in between. -/
theorem awaits_cases (h : step.Scanned) (awaits : step.after.awaitsParen = true) :
    (step.token.kind.isWord = true ∧ step.after.lastCommand = Command.ofName? step.tokenText) ∨
      ((step.token.kind = .whiteSpace ∨ step.token.kind = .comment) ∧
        step.before.awaitsParen = true ∧ step.after.lastCommand = step.before.lastCommand) := by
  cases h.effect with
  | opens _ _ _ _ after =>
    rw [show step.after = _ from after] at awaits
    cases awaits
  | closes inner _ _ after =>
    rw [show step.after = _ from after, State.awaitsParen_withDepth] at awaits
    have := h.coherent.outside awaits
    omega
  | names _ _ word _ command after =>
    refine .inl ⟨word, ?_⟩
    rw [show step.after = _ from after]
    exact (State.lastCommand_withCommand step.before _).trans command
  | rests _ kind _ continues same _ =>
    exact .inr ⟨kind, same.symm.trans awaits, continues.lastCommand⟩
  | breaks _ _ _ _ _ _ _ given =>
    rw [show step.after.awaitsParen = false from given] at awaits
    cases awaits
  | stays inside _ _ _ _ given =>
    have := h.coherent.outside (given awaits)
    omega

end Scanned

end Step

namespace Walk

namespace Run

variable {s t : State} {xs : List Step}

/-- What holds at the start and is kept by every further step holds after every run. -/
theorem concat_induction {motive : List Step → State → Prop} (run : Run s xs t)
    (nil : motive [] s)
    (concat : ∀ {xs : List Step} {step : Step}, motive xs step.before → step.Scanned →
      motive (xs ++ [step]) step.after) : motive xs t := by
  -- A run is built from its first step on, so the steps before it are carried along.
  suffices generalized : ∀ earlier, motive earlier s → motive (earlier ++ xs) t from
    generalized [] nil
  clear nil
  induction run with
  | nil =>
    intro earlier h
    rwa [List.append_nil]
  | @cons step steps t scanned _ ih =>
    intro earlier h
    rw [List.append_cons]
    exact ih _ (concat h scanned)

/-- An argument list stays open, and its command the last one named, until a step closes it. -/
theorem within (run : Run s xs t) (inside : 0 < s.depth.val)
    (open_ : ∀ step ∈ xs, step.closesList = false) :
    0 < t.depth.val ∧ t.lastCommand = s.lastCommand := by
  induction run with
  | nil => exact ⟨inside, rfl⟩
  | @cons step steps t scanned _ ih =>
    have further : 0 < step.after.depth.val := by
      have stays := open_ step List.mem_cons_self
      rw [Bool.eq_false_iff, ne_eq, scanned.closesList_iff] at stays
      omega
    obtain ⟨deep, command⟩ := ih further fun next h => open_ next (List.mem_cons_of_mem step h)
    exact ⟨deep, command.trans (scanned.lastCommand_of_inside inside)⟩

/-- Inside parentheses some list has been opened and not been closed since. -/
theorem exists_opening (run : Run .start xs t) (inside : 0 < t.depth.val) :
    ∃ before opening inner, xs = before ++ opening :: inner ∧ opening.opensList = true ∧
      ∀ step ∈ inner, step.closesList = false := by
  revert inside
  apply run.concat_induction
  · intro inside
    cases inside
  · intro xs step earlier scanned inside
    rcases Nat.eq_zero_or_pos step.before.depth.val with outside | deep
    · refine ⟨xs, step, [], rfl, scanned.opensList_iff.mpr ⟨outside, inside⟩, ?_⟩
      intro step member
      cases member
    · obtain ⟨before, opening, inner, rfl, opens, stays⟩ := earlier deep
      have stay : step.closesList = false := by
        rw [Bool.eq_false_iff, ne_eq, scanned.closesList_iff]
        omega
      refine ⟨before, opening, inner ++ [step], by simp, opens, fun next member => ?_⟩
      rcases List.mem_append.mp member with member | member
      · exact stays next member
      · rw [List.mem_singleton.mp member]
        exact stay

/-- Of the steps that open or close lists, there is an odd number inside and an even one outside. -/
theorem countP_isBound (run : Run .start xs t) :
    xs.countP Step.isBound % 2 = 1 ↔ 0 < t.depth.val := by
  apply run.concat_induction
  · decide
  · intro xs step counted scanned
    have bound : step.isBound = true ↔ step.opensList = true ∨ step.closesList = true := by
      rw [Step.isBound, Bool.or_eq_true]
    rw [scanned.opensList_iff, scanned.closesList_iff] at bound
    rw [List.countP_append, List.countP_singleton]
    split
    · next crosses =>
      rw [bound] at crosses
      omega
    · next stays =>
      rw [bound] at stays
      omega

/-- The word that awaits its parenthesis is the last one, and names the last command. -/
theorem exists_awaiting (run : Run .start xs t) (awaits : t.awaitsParen = true) :
    ∃ before word gap, xs = before ++ word :: gap ∧ word.token.kind.isWord = true ∧
      (∀ step ∈ gap, step.token.kind = .whiteSpace ∨ step.token.kind = .comment) ∧
      t.lastCommand = Command.ofName? word.tokenText := by
  revert awaits
  apply run.concat_induction
  · intro awaits
    cases awaits
  · intro xs step earlier scanned awaits
    rcases scanned.awaits_cases awaits with ⟨word, command⟩ | ⟨gap, before, same⟩
    · refine ⟨xs, step, [], rfl, word, ?_, command⟩
      intro step member
      cases member
    · obtain ⟨before, word, gap', rfl, isWord, gaps, command⟩ := earlier before
      refine ⟨before, word, gap' ++ [step], by simp, isWord, fun next member => ?_,
        same.trans command⟩
      rcases List.mem_append.mp member with member | member
      · exact gaps next member
      · rw [List.mem_singleton.mp member]
        exact gap

end Run

/-- A walk cut at one of its steps. -/
theorem run_of_steps_eq {lines : List Text} {before after : List Step} {step : Step}
    (h : steps lines = before ++ step :: after) :
    Run .start before step.before ∧ step.Scanned ∧ ∃ s, Run step.after after s := by
  have run := run_steps lines
  rw [h] at run
  obtain ⟨s, left, right⟩ := run.of_append
  cases right with
  | cons scanned rest => exact ⟨left, scanned, _, rest⟩

theorem exists_split_of_getElem?_filter {α : Type} {p : α → Bool} {xs : List α} {i : Nat}
    {x : α} (h : (xs.filter p)[i]? = some x) :
    ∃ before after, xs = before ++ x :: after ∧ before.countP p = i ∧ p x = true := by
  induction xs generalizing i with
  | nil => cases h
  | cons y xs ih =>
    cases hy : p y with
    | true =>
      rw [List.filter_cons_of_pos hy] at h
      cases i with
      | zero =>
        obtain rfl : y = x := by simpa using h
        exact ⟨[], xs, rfl, rfl, hy⟩
      | succ i =>
        obtain ⟨before, after, rfl, counted, hx⟩ := ih (by simpa using h)
        exact ⟨y :: before, after, rfl, by rw [List.countP_cons_of_pos hy, counted], hx⟩
    | false =>
      rw [List.filter_cons_of_neg (by simp [hy])] at h
      obtain ⟨before, after, rfl, counted, hx⟩ := ih h
      exact ⟨y :: before, after, rfl, by rw [List.countP_cons_of_neg (by simp [hy]), counted], hx⟩

/-- Openings and closings of argument lists alternate, an opening first. -/
theorem bounds_alternate {lines : List Text} {i : Nat} {step : Step}
    (h : ((steps lines).filter Step.isBound)[i]? = some step) :
    (step.opensList = true ↔ i % 2 = 0) ∧ (step.closesList = true ↔ i % 2 = 1) := by
  obtain ⟨before, after, split, rfl, bound⟩ := exists_split_of_getElem?_filter h
  obtain ⟨run, scanned, _⟩ := run_of_steps_eq split
  have counted := run.countP_isBound
  rw [Step.isBound, Bool.or_eq_true] at bound
  rw [scanned.opensList_iff, scanned.closesList_iff] at bound ⊢
  omega

/-- Depth is positive exactly after an opening up to and including the closing that follows. -/
theorem depth_pos_iff {lines : List Text} {before after : List Step} {step : Step}
    (h : steps lines = before ++ step :: after) :
    0 < step.before.depth.val ↔ ∃ earlier opening inner, before = earlier ++ opening :: inner ∧
      opening.opensList = true ∧ ∀ between ∈ inner, between.closesList = false := by
  constructor
  · exact (run_of_steps_eq h).1.exists_opening
  · rintro ⟨earlier, opening, inner, rfl, opens, stays⟩
    obtain ⟨s, _, run⟩ := (run_of_steps_eq h).1.of_append
    cases run with
    | cons scanned rest => exact (rest.within (scanned.opensList_iff.mp opens).2 stays).1

/-- Up to its closing, the last command named is that of the word before an opening. -/
theorem lastCommand_of_opensList {lines : List Text} {before after : List Step} {opening : Step}
    (h : steps lines = before ++ opening :: after) (opens : opening.opensList = true) :
    ∃ earlier word gap, before = earlier ++ word :: gap ∧ word.token.kind.isWord = true ∧
      (∀ step ∈ gap, step.token.kind = .whiteSpace ∨ step.token.kind = .comment) ∧
      opening.after.lastCommand = Command.ofName? word.tokenText ∧
      ∀ inner step later, after = inner ++ step :: later →
        (∀ between ∈ inner, between.closesList = false) →
        step.before.lastCommand = Command.ofName? word.tokenText ∧
          step.after.lastCommand = Command.ofName? word.tokenText := by
  obtain ⟨run, scanned, s, rest⟩ := run_of_steps_eq h
  obtain ⟨awaited, same⟩ := scanned.awaited_of_opensList opens
  obtain ⟨earlier, word, gap, rfl, isWord, gaps, command⟩ := run.exists_awaiting awaited
  have opened := same.trans command
  refine ⟨earlier, word, gap, rfl, isWord, gaps, opened, ?_⟩
  rintro inner step later rfl stays
  obtain ⟨t, left, right⟩ := rest.of_append
  cases right with
  | cons scanned' _ =>
    obtain ⟨inside, kept⟩ := left.within (scanned.opensList_iff.mp opens).2 stays
    have entered := kept.trans opened
    exact ⟨entered, (scanned'.lastCommand_of_inside inside).trans entered⟩

/-- **The triggers of a script mark its argument lists.** Openings and closings alternate, an
opening first, and depth is positive just from an opening to the closing that follows. Blanks
directly inside a list separate arguments, words outside of lists that name a command are keywords,
and no other token has a command. An opening follows a word with nothing but blanks and comments in
between, and that word's command stays the last one named up to the closing. -/
theorem triggers_mark_argument_lists (lines : List Text) :
    (∀ i step, ((steps lines).filter Step.isBound)[i]? = some step →
      (step.opensList = true ↔ i % 2 = 0) ∧ (step.closesList = true ↔ i % 2 = 1)) ∧
    (∀ before step after, steps lines = before ++ step :: after →
      (0 < step.before.depth.val ↔ ∃ earlier opening inner, before = earlier ++ opening :: inner ∧
        opening.opensList = true ∧ ∀ between ∈ inner, between.closesList = false)) ∧
    (∀ step ∈ steps lines,
      (step.token.trigger.has .parameterNext = true ↔
        step.token.kind = .whiteSpace ∧ step.before.depth.val = 1) ∧
      (step.token.kind = .keyword ↔ step.token.kind.isWord = true ∧ step.before.depth.val = 0 ∧
        (Command.ofName? step.tokenText).isSome = true) ∧
      step.token.command =
        if step.token.kind = .keyword then Command.ofName? step.tokenText else none) ∧
    ∀ before opening after, steps lines = before ++ opening :: after → opening.opensList = true →
      ∃ earlier word gap, before = earlier ++ word :: gap ∧ word.token.kind.isWord = true ∧
        (∀ step ∈ gap, step.token.kind = .whiteSpace ∨ step.token.kind = .comment) ∧
        opening.after.lastCommand = Command.ofName? word.tokenText ∧
        ∀ inner step later, after = inner ++ step :: later →
          (∀ between ∈ inner, between.closesList = false) →
          step.before.lastCommand = Command.ofName? word.tokenText ∧
            step.after.lastCommand = Command.ofName? word.tokenText := by
  refine ⟨fun _ _ => bounds_alternate, fun _ _ _ => depth_pos_iff, ?_,
    fun _ _ _ => lastCommand_of_opensList⟩
  intro step member
  obtain ⟨before, after, split⟩ := List.append_of_mem member
  obtain ⟨_, scanned, _⟩ := run_of_steps_eq split
  obtain ⟨separates, keyword, command⟩ := scanned.labelled
  exact ⟨separates, keyword, command⟩

/-- A comment between a word and its parenthesis, which stands on the next line, and a word inside
that would be a keyword outside. -/
theorem triggers_mark_argument_lists_over_comment :
    let lines := [utf8 "If #(", utf8 "(set x) f ("]
    (∃ step, ((steps lines).filter Step.isBound)[1]? = some step ∧ step.closesList = true) ∧
    (∃ step ∈ steps lines, step.token.trigger.has .parameterNext = true ∧
      step.token.kind = .whiteSpace ∧ step.before.depth.val = 1) ∧
    ∃ before opening after, steps lines = before ++ opening :: after ∧ opening.opensList = true ∧
      ∃ word ∈ before, word.token.kind.isWord = true ∧
        opening.after.lastCommand = Command.ofName? word.tokenText := by
  intro lines
  obtain ⟨alternate, _, labels, commands⟩ := triggers_mark_argument_lists lines
  refine ⟨?_, ?_, ?_⟩
  · obtain ⟨step, found⟩ : ∃ step, ((steps lines).filter Step.isBound)[1]? = some step :=
      Option.isSome_iff_exists.mp (by decide +kernel)
    exact ⟨step, found, (alternate 1 step found).2.mpr rfl⟩
  · obtain ⟨step, member, next⟩ : ∃ step ∈ steps lines,
        step.token.trigger.has .parameterNext = true := by decide +kernel
    exact ⟨step, member, next, (labels step member).1.mp next⟩
  · obtain ⟨opening, member, opens⟩ : ∃ step ∈ steps lines, step.opensList = true := by
      decide +kernel
    obtain ⟨before, after, split⟩ := List.append_of_mem member
    obtain ⟨earlier, word, gap, rfl, isWord, _, command, _⟩ :=
      commands before opening after split opens
    exact ⟨_, opening, after, split, opens, word, by simp, isWord, command⟩

end Walk

end CMakeSense
