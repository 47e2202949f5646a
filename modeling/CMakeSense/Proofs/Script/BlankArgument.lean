import CMakeSense.Proofs.Script.ArgumentText
import CMakeSense.Proofs.Script.Layout
import CMakeSense.Proofs.Token.Nesting

/-! Arguments of blanks. Directly inside an argument list blanks separate arguments, but within
inner parentheses they belong to them, and a line end ends an argument in both places. So a line
within inner parentheses that has nothing but blanks and comments on it (`Walk.IdleLine`) becomes an
argument of its own. In a script without quotes that is the only way to an argument of blanks. The
argument that is being read tells all along what its line has had so far (`Arguments.Tracks`), which
is what shows where it comes from once it ends. -/

namespace CMakeSense

open Statement

namespace Walk

variable {xs ys : List Step} {step : Step} {line : Nat}

/-- Nothing but blanks and comments stands on the line. -/
def BareLine (steps : List Step) (line : Nat) : Prop :=
  ∀ step ∈ steps, step.line = line → step.token.kind = .whiteSpace ∨ step.token.kind = .comment

/-- Blanks stand on the line, within parentheses inside of an argument list. -/
def InnerBlank (steps : List Step) (line : Nat) : Prop :=
  ∃ step ∈ steps, step.line = line ∧ step.token.kind = .whiteSpace ∧ 2 ≤ step.before.depth.val

/-- The line has blanks within inner parentheses and nothing else, but for comments. -/
structure IdleLine (steps : List Step) (line : Nat) : Prop where
  bare : BareLine steps line
  inner : InnerBlank steps line

theorem bareLine_concat : BareLine (xs ++ [step]) step.line ↔
    BareLine xs step.line ∧ (step.token.kind = .whiteSpace ∨ step.token.kind = .comment) := by
  simp only [BareLine, List.mem_append, List.mem_singleton, or_imp, forall_and, forall_eq,
    forall_const]

theorem innerBlank_concat : InnerBlank (xs ++ [step]) step.line ↔
    InnerBlank xs step.line ∨ step.token.kind = .whiteSpace ∧ 2 ≤ step.before.depth.val := by
  simp only [InnerBlank, List.mem_append, List.mem_singleton, or_and_right, exists_or,
    exists_eq_left, true_and]

/-- The steps before and behind one of a walk stand above and below it, or on its line. -/
theorem line_le_of_split {steps rest : List Step} (ordered : steps.Pairwise Step.Precedes)
    (split : steps = xs ++ step :: rest) :
    (∀ earlier ∈ xs, earlier.line ≤ step.line) ∧
      ∀ later ∈ step :: rest, step.line ≤ later.line := by
  have le {a b : Step} (precedes : a.Precedes b) : a.line ≤ b.line := by
    rcases precedes with lt | ⟨eq, _⟩
    · exact Nat.le_of_lt lt
    · exact Nat.le_of_eq eq
  rw [split, List.pairwise_append, List.pairwise_cons] at ordered
  obtain ⟨_, ⟨behind, _⟩, across⟩ := ordered
  refine ⟨fun earlier member => le (across earlier member step List.mem_cons_self), ?_⟩
  rw [List.forall_mem_cons]
  exact ⟨Nat.le_refl _, fun later member => le (behind later member)⟩

/-- A walk cut at the end of a line. -/
theorem exists_split_behind_line {lines : List Text} (member : step ∈ steps lines) :
    ∃ front rest, steps lines = front ++ rest ∧ (∀ earlier ∈ front, earlier.line ≤ step.line) ∧
      ∀ later ∈ rest, step.line < later.line := by
  have bound := (line_of_mem_stepsFrom member).2
  rw [Nat.zero_add] at bound
  refine ⟨_, _, steps_eq_append lines (Nat.succ_le_of_lt bound), fun earlier above => ?_,
    fun later below => (line_of_mem_stepsFrom below).1⟩
  have := (line_of_mem_stepsFrom above).2
  rw [List.length_take] at this
  omega

/-- What follows on other lines leaves a line idle. -/
theorem IdleLine.append (h : IdleLine xs line) (other : ∀ step ∈ ys, step.line ≠ line) :
    IdleLine (xs ++ ys) line := by
  constructor
  · intro step member here
    rcases List.mem_append.mp member with early | late
    · exact h.bare step early here
    · exact absurd here (other step late)
  · obtain ⟨blank, member, rest⟩ := h.inner
    exact ⟨blank, List.mem_append_left _ member, rest⟩

end Walk

namespace Step.Scanned

variable {step : Step}

theorem exists_tokenText (h : step.Scanned) :
    ∃ c t u, step.lexeme = Lexeme.next step.before c t ∧ step.rest = c :: t ∧
      step.tokenText = c :: u := by
  obtain ⟨_, c, t, rest, next⟩ := h
  have length : step.token.length = (Lexeme.next step.before c t).length :=
    congrArg Lexeme.length next
  obtain ⟨n, positive⟩ := Nat.exists_eq_add_of_lt (Lexeme.next_length_pos step.before c t)
  refine ⟨c, t, t.take n, next, rest, ?_⟩
  rw [tokenText, rest, length, positive, Nat.zero_add, List.take_succ_cons]

/-- Blanks and comments change no depth and bound no list. -/
theorem quiet_of_rests (h : step.Scanned)
    (kind : step.token.kind = .whiteSpace ∨ step.token.kind = .comment) :
    step.closesList = false ∧ step.after.depth = step.before.depth := by
  have closes : step.token.kind ≠ .closeParen := by
    rcases kind with kind | kind <;> simp [kind]
  refine ⟨Bool.eq_false_iff.mpr fun stop => ?_, ?_⟩
  · exact closes (h.closesList_iff_closeParen.mp stop).1
  · cases h.counts with
    | opening opens => rcases kind with kind | kind <;> cases opens.symm.trans kind
    | closing closing => exact absurd closing closes
    | neither _ _ depth => exact depth

/-- A token of blanks is nothing else. -/
theorem blank_tokenText (h : step.Scanned) (kind : step.token.kind = .whiteSpace) :
    step.tokenText.Blank := by
  obtain ⟨c, t, u, next, rest, text⟩ := h.exists_tokenText
  refine ⟨text ▸ List.cons_ne_nil c u, ?_⟩
  have kind : (Lexeme.next step.before c t).kind = .whiteSpace := by
    rw [← next]
    exact kind
  obtain ⟨comment, string, space⟩ := Lexeme.blank_of_next_kind kind
  rw [Lexeme.next_of_isSpace space comment string] at next
  have length : step.token.length = ((c :: t).takeWhile Ascii.isSpace).length :=
    congrArg Lexeme.length next
  rw [tokenText, rest, length, ← List.prefix_iff_eq_take.mp (List.takeWhile_prefix _)]
  exact List.all_eq_true.mp (List.all_takeWhile ..)

/-- Outside of strings all other tokens but comments begin with another byte. -/
theorem exists_not_isSpace (h : step.Scanned) (string : step.before.inString = false)
    (blank : step.token.kind ≠ .whiteSpace) (comment : step.token.kind ≠ .comment) :
    ∃ c ∈ step.tokenText, Ascii.isSpace c = false := by
  obtain ⟨c, t, u, next, _, text⟩ := h.exists_tokenText
  have kind : step.token.kind = (Lexeme.next step.before c t).kind := congrArg Lexeme.kind next
  refine ⟨c, text ▸ List.mem_cons_self, Bool.eq_false_iff.mpr fun space => ?_⟩
  cases inComment : step.before.inComment with
  | true =>
    rw [Lexeme.next, if_pos inComment, Lexeme.commentBody_kind] at kind
    exact comment kind
  | false =>
    rw [Lexeme.next_of_isSpace space inComment string] at kind
    exact blank kind

end Step.Scanned

open Walk

/-- What the argument that is being read tells of its line, after the steps `xs` that lead to the
state `s`. -/
structure Arguments.Tracks (xs : List Step) (s : State) (args : Arguments) : Prop where
  nonempty : ∀ bytes ∈ args.pending, bytes ≠ []
  /-- The argument has blanks only if the line has nothing else. -/
  blank : ∀ bytes ∈ args.pending,
    (∀ c ∈ bytes, Ascii.isSpace c = true) ↔ BareLine xs args.line
  /-- Within inner parentheses only blanks and comments do not begin an argument. -/
  fresh : args.pending = none → 2 ≤ s.depth.val → BareLine xs args.line
  begun : BareLine xs args.line → (args.pending.isSome = true ↔ InnerBlank xs args.line)
  /-- Blanks and comments do not lead out of the parentheses. -/
  inner : IdleLine xs args.line → 2 ≤ s.depth.val

namespace Arguments.Tracks

variable {xs : List Step} {s : State} {args : Arguments} {step : Step}

/-- An argument of blanks is being read on an idle line. -/
theorem idle (h : args.Tracks xs s) {bytes : Text} (pending : bytes ∈ args.pending)
    (blank : ∀ c ∈ bytes, Ascii.isSpace c = true) : IdleLine xs args.line := by
  have bare := (h.blank bytes pending).mp blank
  refine ⟨bare, (h.begun bare).mp ?_⟩
  exact Option.isSome_iff_exists.mpr ⟨bytes, pending⟩

/-- On a line that has had no token yet, nothing is being read. -/
theorem of_new_line (none : args.pending = none) (new : ∀ step ∈ xs, step.line ≠ args.line) :
    args.Tracks xs s where
  nonempty := by simp [none]
  blank := by simp [none]
  fresh _ _ step member here := absurd here (new step member)
  begun _ := by
    rw [none]
    refine iff_of_false nofun ?_
    rintro ⟨step, member, here, _⟩
    exact new step member here
  inner := by
    rintro ⟨_, step, member, here, _⟩
    exact absurd here (new step member)

/-- Behind a token that is no blank and no comment. -/
theorem of_text (h : ¬BareLine xs args.line)
    (nonempty : ∀ bytes ∈ args.pending, ∃ c ∈ bytes, Ascii.isSpace c = false)
    (begun : 2 ≤ s.depth.val → args.pending.isSome = true) : args.Tracks xs s where
  nonempty bytes member := by
    obtain ⟨c, inside, _⟩ := nonempty bytes member
    exact List.ne_nil_of_mem inside
  blank bytes member := by
    obtain ⟨c, inside, other⟩ := nonempty bytes member
    refine iff_of_false (fun blank => ?_) h
    rw [blank c inside] at other
    cases other
  fresh none deep := by
    rw [none] at begun
    cases begun deep
  begun bare := absurd bare h
  inner idle := absurd idle.bare h

section Token

theorem enterLine (h : args.Tracks xs s) (plain : step.before.inString = false)
    (first : step.line ≠ args.line → ∀ earlier ∈ xs, earlier.line ≠ step.line) :
    (args.enterLine step).Tracks xs s := by
  by_cases same : step.line = args.line
  · rw [Arguments.enterLine, if_pos same]
    exact h
  · refine of_new_line ?_ (by simpa using first same)
    rw [enterLine_of_ne same plain]
    exact args.pending_flush

variable (h : args.Tracks xs step.before) (line : args.line = step.line)
include h line

/-- A comment changes nothing. -/
theorem comment (kind : step.token.kind = .comment) (depth : step.after.depth = step.before.depth) :
    args.Tracks (xs ++ [step]) step.after := by
  have bare : BareLine (xs ++ [step]) args.line ↔ BareLine xs args.line := by
    rw [line, bareLine_concat, kind]
    simp
  have inner : InnerBlank (xs ++ [step]) args.line ↔ InnerBlank xs args.line := by
    rw [line, innerBlank_concat, kind]
    simp
  refine ⟨h.nonempty, fun bytes pending => (h.blank bytes pending).trans bare.symm, ?_, ?_, ?_⟩
  · rw [depth, bare]
    exact h.fresh
  · rw [bare, inner]
    exact h.begun
  · rintro ⟨bare', inner'⟩
    rw [depth]
    exact h.inner ⟨bare.mp bare', inner.mp inner'⟩

/-- Blanks directly inside the list end an argument. -/
theorem separates (separates : step.separates = true)
    (depth : step.after.depth = step.before.depth) :
    args.flush.Tracks (xs ++ [step]) step.after := by
  obtain ⟨_, direct⟩ := Step.separates_iff.mp separates
  have busy : ¬IdleLine (xs ++ [step]) step.line := by
    rintro ⟨bare, inner⟩
    rcases innerBlank_concat.mp inner with earlier | ⟨_, deep⟩
    · have := h.inner (line ▸ ⟨(bareLine_concat.mp bare).1, earlier⟩)
      omega
    · omega
  refine ⟨by simp, by simp, fun _ deep => ?_, fun bare => ?_, fun idle => ?_⟩
  · rw [depth] at deep
    omega
  · rw [pending_flush]
    refine iff_of_false nofun fun inner => busy ?_
    rw [line_flush, line] at bare inner
    exact ⟨bare, inner⟩
  · rw [line_flush, line] at idle
    exact absurd idle busy

/-- Within inner parentheses blanks belong to an argument. -/
theorem innerBlank (kind : step.token.kind = .whiteSpace) (deep : 2 ≤ step.before.depth.val)
    (text : step.tokenText.Blank) (depth : step.after.depth = step.before.depth) :
    (args.append step.tokenText).Tracks (xs ++ [step]) step.after := by
  have bare : BareLine (xs ++ [step]) step.line ↔ BareLine xs step.line := by
    rw [bareLine_concat, kind]
    simp
  have inner : InnerBlank (xs ++ [step]) step.line := innerBlank_concat.mpr (.inr ⟨kind, deep⟩)
  have line' : (args.append step.tokenText).line = step.line := line
  have pending := args.pending_append step.tokenText
  refine ⟨?_, ?_, ?_, ?_, fun _ => depth ▸ deep⟩
  · rw [pending]
    rintro _ ⟨⟩
    exact List.append_ne_nil_of_right_ne_nil _ text.nonempty
  · rw [pending, line', bare, ← line]
    rintro _ ⟨⟩
    have last : ∀ bytes : Text, (∀ c ∈ bytes ++ step.tokenText, Ascii.isSpace c = true) ↔
        ∀ c ∈ bytes, Ascii.isSpace c = true := by
      intro bytes
      rw [List.forall_mem_append]
      exact and_iff_left text.blank
    rw [last]
    cases begun : args.pending with
    | none => exact iff_of_true (by simp) (h.fresh begun deep)
    | some bytes => exact h.blank bytes begun
  · rw [pending]
    nofun
  · rw [pending, line']
    exact fun _ => iff_of_true rfl inner

end Token

/-- One token of the list keeps track of its line. -/
theorem add (h : args.Tracks xs step.before) (scanned : step.Scanned)
    (plain : step.before.inString = false) (stop : step.closesList = false)
    (inside : 0 < step.before.depth.val)
    (first : step.line ≠ args.line → ∀ earlier ∈ xs, earlier.line ≠ step.line) :
    (args.add step).Tracks (xs ++ [step]) step.after := by
  have entered := h.enterLine plain first
  have line := args.line_enterLine step
  by_cases comment : step.token.kind = .comment
  · rw [add_of_comment comment stop]
    exact entered.comment line comment (scanned.quiet_of_rests (.inr comment)).2
  by_cases blank : step.token.kind = .whiteSpace
  · have depth := (scanned.quiet_of_rests (.inl blank)).2
    by_cases direct : step.before.depth.val = 1
    · have separates := Step.separates_iff.mpr ⟨blank, direct⟩
      rw [add_eq_flush (.inr separates)]
      exact entered.separates line separates depth
    · have separates : step.separates = false := by simp [Step.separates, direct]
      rw [add_eq_append stop comment separates]
      exact entered.innerBlank line blank (by omega) (scanned.blank_tokenText blank) depth
  · have separates : step.separates = false := by simp [Step.separates, blank]
    rw [add_eq_append stop comment separates]
    refine of_text ?_ ?_ ?_
    · intro bare
      have line' : ((args.enterLine step).append step.tokenText).line = step.line := line
      rw [line', bareLine_concat] at bare
      exact bare.2.elim blank comment
    · obtain ⟨c, inside, other⟩ := scanned.exists_not_isSpace plain blank comment
      rw [pending_append]
      rintro _ ⟨⟩
      exact ⟨c, List.mem_append_right _ inside, other⟩
    · rw [pending_append]
      exact fun _ => rfl

end Arguments.Tracks

/-- The argument is not empty, and where it has nothing but blanks, some line is idle. -/
def Walk.Explains (steps : List Step) (argument : Text) : Prop :=
  argument ≠ [] ∧ (argument.Blank → ∃ line, IdleLine steps line)

/-- What holds of the argument list that is being read after the steps `xs` of a walk, which lead to
the state `s`; all of its steps are `steps`. -/
structure Arguments.Kept (steps xs : List Step) (s : State) (args : Arguments) : Prop where
  plain : args.Spelled (· ≠ Ascii.quote)
  last : ∃ step ∈ xs, step.line = args.line
  above : ∀ step ∈ xs, step.line ≤ args.line
  tracks : args.Tracks xs s
  done : ∀ argument ∈ args.done, Explains steps argument

namespace Arguments

variable {steps xs rest : List Step} {s : State} {args : Arguments} {step : Step}

/-- An argument ends as it has been read. -/
theorem explains_flush (plain : args.Spelled (· ≠ Ascii.quote))
    (done : ∀ argument ∈ args.done, Explains steps argument)
    (pending : ∀ bytes ∈ args.pending, Explains steps bytes) :
    ∀ argument ∈ args.flush.done, Explains steps argument := by
  intro argument member
  rw [done_flush, List.mem_append, Option.mem_toList, Option.map_eq_some_iff] at member
  rcases member with ended | ⟨bytes, begun, rfl⟩
  · exact done argument ended
  · rw [unquote_pending plain begun]
    exact pending bytes begun

namespace Kept

/-- The first token of an argument list. -/
theorem start (kind : step.token.kind = .openParen)
    (above : ∀ earlier ∈ xs, earlier.line ≤ step.line) (depth : s.depth.val = 1) :
    (Arguments.start step.line).Kept steps (xs ++ [step]) s where
  plain := spelled_start _
  last := ⟨step, List.mem_append_right _ List.mem_cons_self, rfl⟩
  above := by
    have line : (Arguments.start step.line).line = step.line := rfl
    simpa [line, or_imp, forall_and] using above
  tracks := by
    refine .of_text ?_ (by simp) fun deep => ?_
    · intro bare
      have blank := (bareLine_concat.mp bare).2
      rw [kind] at blank
      simp at blank
    · omega
  done := by simp

section Token
variable (h : args.Kept steps xs step.before) (split : steps = xs ++ step :: rest)
  (ordered : steps.Pairwise Step.Precedes) (unquoted : step.Unquoted)
include h split ordered

theorem line_le : args.line ≤ step.line := by
  obtain ⟨last, member, here⟩ := h.last
  exact here ▸ (line_le_of_split ordered split).1 last member

/-- Where a token stands on another line than the one before it, it is the first there. -/
theorem first_of_moved (moved : step.line ≠ args.line) :
    ∀ earlier ∈ xs, earlier.line ≠ step.line := by
  intro earlier member
  have := h.above earlier member
  have := h.line_le split ordered
  omega

include unquoted

/-- Entering a line explains the argument of the line before. -/
theorem explains_enterLine : ∀ argument ∈ (args.enterLine step).done, Explains steps argument := by
  by_cases same : step.line = args.line
  · rw [enterLine, if_pos same]
    exact h.done
  rw [enterLine_of_ne same unquoted.string]
  refine explains_flush h.plain h.done fun bytes pending => ⟨h.tracks.nonempty bytes pending, ?_⟩
  intro blank
  have le := h.line_le split ordered
  refine ⟨args.line, split ▸ (h.tracks.idle pending blank.blank).append fun next member => ?_⟩
  have := (line_le_of_split ordered split).2 next member
  omega

/-- Directly inside the list no argument of blanks is being read. -/
theorem explains_flush_enterLine (direct : step.before.depth.val = 1) :
    ∀ argument ∈ (args.enterLine step).flush.done, Explains steps argument := by
  have entered := h.tracks.enterLine unquoted.string (h.first_of_moved split ordered)
  refine explains_flush (spelled_enterLine h.plain unquoted)
    (h.explains_enterLine split ordered unquoted) fun bytes pending => ?_
  refine ⟨entered.nonempty bytes pending, fun blank => ?_⟩
  have := entered.inner (entered.idle pending blank.blank)
  omega

/-- One token keeps what holds of the list. -/
theorem add (scanned : step.Scanned) (stop : step.closesList = false)
    (inside : 0 < step.before.depth.val) :
    (args.add step).Kept steps (xs ++ [step]) step.after where
  plain := h.plain.add (by decide) unquoted.text
  last := ⟨step, List.mem_append_right _ List.mem_cons_self, (args.line_add step).symm⟩
  above := by
    rw [line_add]
    simpa [or_imp, forall_and] using (line_le_of_split ordered split).1
  tracks := h.tracks.add scanned unquoted.string stop inside (h.first_of_moved split ordered)
  done := by
    have entered := h.explains_enterLine split ordered unquoted
    by_cases comment : step.token.kind = .comment
    · rw [add_of_comment comment stop]
      exact entered
    cases separates : step.separates with
    | true =>
      rw [add_eq_flush (.inr separates)]
      exact h.explains_flush_enterLine split ordered unquoted (Step.separates_iff.mp separates).2
    | false =>
      rw [add_eq_append stop comment separates]
      exact entered

end Token

end Kept

end Arguments

namespace Statement

/-- What holds of the argument list that is being read, if there is one. -/
def Reading.Kept (steps xs : List Step) (s : State) : Reading → Prop
  | .between _ => True
  | .within _ args => args.Kept steps xs s

/-- It holds all along a walk without quotes. -/
theorem Reading.kept_of_isPrefix {steps xs : List Step} {s : State}
    (ordered : steps.Pairwise Step.Precedes) (unquoted : ∀ step ∈ steps, step.Unquoted)
    (run : Run .start xs s) (part : xs <+: steps) :
    (xs.foldl Reading.after (.between none)).Kept steps xs s := by
  suffices both : xs <+: steps → (xs.foldl Reading.after (.between none)).Fits s ∧
      (xs.foldl Reading.after (.between none)).Kept steps xs s from (both part).2
  apply run.concat_induction
  · exact fun _ => ⟨Reading.fits_start, trivial⟩
  · rintro xs step earlier scanned ⟨rest, split⟩
    rw [List.append_assoc, List.singleton_append] at split
    obtain ⟨fits, kept⟩ := earlier ⟨step :: rest, split⟩
    obtain ⟨next, hnext, turn, fits'⟩ := fits.turn scanned
    rw [List.foldl_append, List.foldl_cons, List.foldl_nil, hnext]
    refine ⟨fits', ?_⟩
    generalize xs.foldl Reading.after (.between none) = reading at turn kept fits
    cases turn with
    | opens kind start stop =>
      refine .start kind (line_le_of_split ordered split.symm).1 ?_
      rw [(scanned.after_of_opensList start).2]
      rfl
    | stays start stop =>
      have member : step ∈ steps := split ▸ List.mem_append_right _ List.mem_cons_self
      exact Arguments.Kept.add kept split.symm ordered (unquoted step member) scanned stop fits.1
    | _ => trivial

/-- A statement is completed by the token that closes its list, or left open at the end. -/
theorem exists_reading_of_mem {reading : Reading} {steps : List Step} {statement : Statement}
    (h : statement ∈ readFrom reading steps) :
    (∃ front closing rest head args, steps = front ++ closing :: rest ∧
      front.foldl Reading.after reading = .within head args ∧ closing.closesList = true ∧
      statement = head.statement (args.add closing).done true) ∨
    ∃ head args, steps.foldl Reading.after reading = .within head args ∧
      statement = head.statement args.flush.done false := by
  induction steps generalizing reading with
  | nil =>
    cases reading with
    | between head? => cases h
    | within head args => exact .inr ⟨head, args, rfl, List.mem_singleton.mp h⟩
  | cons step steps ih =>
    rw [readFrom_cons, List.mem_append, Option.mem_toList] at h
    rcases h with here | later
    · cases reading with
      | between head? => cases here
      | within head args =>
        rw [Reading.completes?] at here
        split at here
        · next stop =>
          cases here
          exact .inl ⟨[], step, steps, head, args, rfl, rfl, stop, rfl⟩
        · cases here
    · rcases ih later with ⟨front, closing, rest, head, args, rfl, read⟩ | left
      · exact .inl ⟨step :: front, closing, rest, head, args, rfl, read⟩
      · exact .inr left

end Statement

namespace Script

variable {lines : List Text}

/-- On an idle line an argument list is read up to its end. -/
theorem exists_within_of_idleLine {line : Nat} (idle : IdleLine (Walk.steps lines) line) :
    ∃ front rest head args, Walk.steps lines = front ++ rest ∧ IdleLine front line ∧
      (∀ step ∈ front, step.line ≤ line) ∧ (∀ step ∈ rest, line < step.line) ∧
      front.foldl Reading.after (.between none) = .within head args := by
  obtain ⟨bare, blank, member, rfl, kind, deep⟩ := idle
  obtain ⟨front, rest, parts, above, below⟩ := exists_split_behind_line member
  have inFront : blank ∈ front := by
    rcases List.mem_append.mp (parts ▸ member) with here | later
    · exact here
    · exact absurd (below blank later) (Nat.lt_irrefl _)
  have idle : IdleLine front blank.line :=
    ⟨fun step here => bare step (parts ▸ List.mem_append_left _ here),
      blank, inFront, rfl, kind, deep⟩
  refine ⟨front, rest, ?_⟩
  obtain ⟨before, behind, rfl⟩ := List.append_of_mem inFront
  have split : Walk.steps lines = before ++ blank :: (behind ++ rest) := by
    rw [parts, List.append_assoc, List.cons_append]
  -- The rest of the line closes no list, so the one around the blanks stays open.
  have open_ : ∀ step ∈ blank :: behind, step.closesList = false := by
    intro step here
    have inSteps : step ∈ Walk.steps lines := by
      rw [parts]
      exact List.mem_append_left _ (List.mem_append_right _ here)
    have le := (line_le_of_split (pairwise_steps lines) split).2 step
      (List.mem_append_left rest here)
    have line : step.line = blank.line :=
      Nat.le_antisymm (above step (List.mem_append_right _ here)) le
    obtain ⟨_, _, split'⟩ := List.append_of_mem inSteps
    exact ((run_of_steps_eq split').2.1.quiet_of_rests (bare step inSteps line)).1
  have fits := Reading.fits_start.run (run_of_steps_eq split).1
  cases reading : before.foldl Reading.after (.between none) with
  | between head? =>
    rw [reading] at fits
    have outside := fits.1
    omega
  | within head args =>
    refine ⟨head, (blank :: behind).foldl Arguments.add args, parts, idle, above, below, ?_⟩
    rw [List.foldl_append, reading, Reading.foldl_after_within open_]

section Unquoted
variable (unquoted : ∀ line ∈ lines, Ascii.quote ∉ line)
include unquoted

theorem kept_of_split {xs rest : List Step} {s : State} (split : steps lines = xs ++ rest)
    (run : Run .start xs s) {head : Head} {args : Arguments}
    (read : xs.foldl Reading.after (.between none) = .within head args) :
    args.Kept (steps lines) xs s := by
  have kept := Reading.kept_of_isPrefix (pairwise_steps lines) (unquoted_of_mem_steps unquoted) run
    ⟨rest, split.symm⟩
  rwa [read] at kept

/-- No argument is empty, and idle lines explain those of blanks. -/
theorem explains_arguments {statement : Statement} (h : statement ∈ statements lines) :
    ∀ argument ∈ statement.arguments, Explains (steps lines) argument := by
  rcases exists_reading_of_mem h with
    ⟨front, closing, rest, head, args, split, read, stop, rfl⟩ | ⟨head, args, read, rfl⟩
  · obtain ⟨run, scanned, _⟩ := run_of_steps_eq split
    have kept := kept_of_split unquoted split run read
    have member : closing ∈ steps lines := split ▸ List.mem_append_right _ List.mem_cons_self
    have direct := (scanned.closesList_iff_closeParen.mp stop).2
    intro argument
    rw [Head.statement, Arguments.add_eq_flush (.inl stop)]
    exact kept.explains_flush_enterLine split (pairwise_steps lines)
      (unquoted_of_mem_steps unquoted closing member) direct argument
  · have kept := kept_of_split unquoted (List.append_nil _).symm (run_steps lines) read
    refine Arguments.explains_flush kept.plain kept.done fun bytes pending => ?_
    refine ⟨kept.tracks.nonempty bytes pending, fun blank => ?_⟩
    exact ⟨args.line, kept.tracks.idle pending blank.blank⟩

/-- An idle line becomes an argument. -/
theorem exists_blank_argument {line : Nat} (idle : IdleLine (Walk.steps lines) line) :
    ∃ statement ∈ statements lines, ∃ argument ∈ statement.arguments, argument.Blank := by
  obtain ⟨front, rest, head, args, split, idle, above, below, read⟩ :=
    exists_within_of_idleLine idle
  have run := run_steps lines
  rw [split] at run
  obtain ⟨_, run, _⟩ := run.of_append
  have kept := kept_of_split unquoted split run read
  have here : args.line = line := by
    obtain ⟨last, member, last_eq⟩ := kept.last
    obtain ⟨blank, member', rfl, _⟩ := idle.inner
    exact Nat.le_antisymm (last_eq ▸ above last member) (kept.above blank member')
  subst here
  obtain ⟨bytes, pending⟩ :=
    Option.isSome_iff_exists.mp ((kept.tracks.begun idle.bare).mpr idle.inner)
  have blank := (kept.tracks.blank bytes pending).mpr idle.bare
  obtain ⟨arguments, closed, others, within, flushed⟩ := exists_arguments_of_flush head
    fun step first => args.flush_isPrefix_add (Nat.ne_of_gt (below step (List.mem_of_head? first)))
      (unquoted_of_mem_steps unquoted step
        (split ▸ List.mem_append_right _ (List.mem_of_head? first))).string
  have statement : head.statement arguments closed ∈ statements lines := by
    rw [statements, split, readFrom_append, read, within]
    exact List.mem_append_right _ List.mem_cons_self
  refine ⟨_, statement, bytes, flushed.mem ?_, kept.tracks.nonempty bytes pending, blank⟩
  rw [Arguments.done_flush, pending, Option.map_some, Arguments.unquote_pending kept.plain pending]
  exact List.mem_append_right _ List.mem_cons_self

end Unquoted

/-- **Which arguments are blank.** In a script without quotes no argument is empty, and none has
nothing but blanks exactly if no line is idle: a line of blanks, or of blanks and comments, becomes
an argument where it stands within inner parentheses, and nothing else does. -/
theorem arguments_not_blank_iff (unquoted : ∀ line ∈ lines, Ascii.quote ∉ line) :
    (∀ statement ∈ statements lines, ∀ argument ∈ statement.arguments, argument ≠ []) ∧
    ((∀ statement ∈ statements lines, ∀ argument ∈ statement.arguments, ¬argument.Blank) ↔
      ∀ line, ¬IdleLine (Walk.steps lines) line) := by
  refine ⟨fun statement member argument here => ?_, fun none line idle => ?_, ?_⟩
  · exact (explains_arguments unquoted member argument here).1
  · obtain ⟨statement, member, argument, here, blank⟩ := exists_blank_argument unquoted idle
    exact none statement member argument here blank
  · intro busy statement member argument here blank
    obtain ⟨line, idle⟩ := (explains_arguments unquoted member argument here).2 blank
    exact busy line idle

/-- An empty line within inner parentheses, and a line of blanks outside of them, are no arguments;
nor do blanks at the ends of a line make one. -/
theorem arguments_not_blank_over_empty_line :
    let lines := [utf8 "if((A #c", [], utf8 "  B)", utf8 "  ", utf8 "C)"]
    (∀ line ∈ lines, Ascii.quote ∉ line) ∧ (∀ line, ¬IdleLine (Walk.steps lines) line) ∧
    ∀ statement ∈ statements lines, ∀ argument ∈ statement.arguments,
      argument ≠ [] ∧ ¬argument.Blank := by
  intro lines
  have unquoted : ∀ line ∈ lines, Ascii.quote ∉ line := by decide +kernel
  have others : ∀ blank ∈ Walk.steps lines, blank.token.kind = .whiteSpace →
      2 ≤ blank.before.depth.val → ∃ step ∈ Walk.steps lines, step.line = blank.line ∧
        ¬(step.token.kind = .whiteSpace ∨ step.token.kind = .comment) := by decide +kernel
  have busy : ∀ line, ¬IdleLine (Walk.steps lines) line := by
    rintro line ⟨bare, blank, member, rfl, kind, deep⟩
    obtain ⟨step, here, same, other⟩ := others blank member kind deep
    exact other (bare step here same)
  obtain ⟨nonempty, blank⟩ := arguments_not_blank_iff unquoted
  refine ⟨unquoted, busy, fun statement member argument here => ?_⟩
  exact ⟨nonempty statement member argument here, blank.mpr busy statement member argument here⟩

/-- A line of blanks within inner parentheses is an argument. -/
theorem blank_line_becomes_argument :
    ¬ ∀ lines : List Text, (∀ line ∈ lines, Ascii.quote ∉ line) →
      ∀ statement ∈ statements lines, ∀ argument ∈ statement.arguments,
        ¬(argument = [] ∨ ∀ c ∈ argument, Ascii.isSpace c = true) := by
  intro claimed
  have read : statements [utf8 "if((A", utf8 "  ", utf8 "B))"] =
      [⟨Command.ofName? (utf8 "if"), utf8 "if", 0, [utf8 "(A", utf8 "  ", utf8 "B)"], true⟩] := by
    decide +kernel
  refine claimed [utf8 "if((A", utf8 "  ", utf8 "B))"] (by decide +kernel) _
    (read ▸ List.mem_cons_self) (utf8 "  ") (by decide +kernel) (.inr ?_)
  decide +kernel

end Script

end CMakeSense
