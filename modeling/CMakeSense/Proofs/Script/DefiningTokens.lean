import CMakeSense.Proofs.Text.Distinct
import CMakeSense.Script.Definition

/-! The tokens that define a variable. The variables of a script are found by machines that follow
its tokens one at a time, but what a machine finds can be said without its phases: in any phase, it
finds what the very next tokens complete and then all that it would have found anyway
(`Script.setNames_eq`, `Script.setEnvNames_eq`), since whatever breaks off a sequence is looked at
again as the beginning of one. So the names found are those that stand in a row of tokens somewhere
in the script, one for each position where the row begins (`Script.setNames_eq_filterMap`,
`Script.setEnvNames_eq_filterMap`). -/

namespace CMakeSense.Script

/-- The tokens from position `i` on set the variable `name`: a `set`, a parenthesis and the word
itself, which does not begin the name of an environment variable. -/
def SetsVariableAt (steps : List Step) (i : Nat) (name : Text) : Prop :=
  ∃ set opening word rest, steps.drop i = set :: opening :: word :: rest ∧
    isSet set = true ∧ opening.token.kind = .openParen ∧
    word.token.kind = .identifier ∧ word.tokenText = name ∧
    ¬(name = utf8 "ENV" ∧ word.following.head? = some Ascii.openBrace)

/-- The tokens from position `i` on set the environment variable `name`: a `set`, a parenthesis, the
word `ENV`, a brace and the word itself. -/
def SetsEnvVariableAt (steps : List Step) (i : Nat) (name : Text) : Prop :=
  ∃ set opening mark brace word rest,
    steps.drop i = set :: opening :: mark :: brace :: word :: rest ∧
    isSet set = true ∧ opening.token.kind = .openParen ∧
    mark.token.kind = .identifier ∧ mark.tokenText = utf8 "ENV" ∧
    brace.token.kind = .other ∧ brace.tokenText = [Ascii.openBrace] ∧
    word.token.kind = .identifier ∧ word.tokenText = name

/-- The word behind tokens that pass some tests, one each, if it passes the last one. -/
def wordBehind? (last : Step → Bool) : List (Step → Bool) → List Step → Option Text
  | _, [] => none
  | [], step :: _ => if last step then some step.tokenText else none
  | test :: tests, step :: steps => if test step then wordBehind? last tests steps else none

section
variable {last : Step → Bool} {steps : List Step} {name : Text}

theorem wordBehind?_nil_eq_some_iff : wordBehind? last [] steps = some name ↔
    ∃ word rest, steps = word :: rest ∧ last word = true ∧ word.tokenText = name := by
  cases steps with
  | nil => simp [wordBehind?]
  | cons step steps =>
    simp only [wordBehind?, Option.ite_none_right_eq_some, Option.some.injEq]
    constructor
    · rintro ⟨passes, rfl⟩
      exact ⟨step, steps, rfl, passes, rfl⟩
    · rintro ⟨_, _, ⟨⟩, passes, text⟩
      exact ⟨passes, text⟩

theorem wordBehind?_cons_eq_some_iff {test : Step → Bool} {tests : List (Step → Bool)} :
    wordBehind? last (test :: tests) steps = some name ↔
      ∃ step rest, steps = step :: rest ∧ test step = true ∧
        wordBehind? last tests rest = some name := by
  cases steps with
  | nil => simp [wordBehind?]
  | cons step steps =>
    simp only [wordBehind?, Option.ite_none_right_eq_some]
    constructor
    · rintro ⟨passes, found⟩
      exact ⟨step, steps, rfl, passes, found⟩
    · rintro ⟨_, _, ⟨⟩, passes, found⟩
      exact ⟨passes, found⟩

end

abbrev isOpening (step : Step) : Bool := step.token.kind = .openParen

abbrev isEnvMark (step : Step) : Bool := isToken step .identifier (utf8 "ENV")

abbrev isBrace (step : Step) : Bool := isToken step .other [Ascii.openBrace]

abbrev isIdentifier (step : Step) : Bool := step.token.kind = .identifier

/-- Whether a word is more than the beginning of the name of an environment variable. -/
def isVariable (step : Step) : Bool :=
  isIdentifier step &&
    !(step.tokenText = utf8 "ENV" && step.following.head? = some Ascii.openBrace)

theorem isVariable_iff {step : Step} : isVariable step = true ↔ step.token.kind = .identifier ∧
    ¬(step.tokenText = utf8 "ENV" ∧ step.following.head? = some Ascii.openBrace) := by
  rw [isVariable, ← Bool.decide_and, Bool.and_eq_true, decide_eq_true_iff, Bool.not_eq_true',
    decide_eq_false_iff_not]

/-- The name that the next tokens complete in a phase. -/
def SetPhase.name? : SetPhase → List Step → Option Text
  | .idle => fun _ => none
  | .named => wordBehind? isVariable [isOpening]
  | .opened => wordBehind? isVariable []

/-- The name that the next tokens complete in a phase. -/
def EnvPhase.name? : EnvPhase → List Step → Option Text
  | .idle => fun _ => none
  | .named => wordBehind? isIdentifier [isOpening, isEnvMark, isBrace]
  | .opened => wordBehind? isIdentifier [isEnvMark, isBrace]
  | .marked => wordBehind? isIdentifier [isBrace]
  | .braced => wordBehind? isIdentifier []

theorem kind_of_isSet {step : Step} (h : isSet step = true) : step.token.kind = .keyword := by
  rw [isSet, Bool.and_eq_true, decide_eq_true_iff] at h
  exact h.1

/-- In every phase the machine finds what the next tokens complete and what it finds from the
start. -/
theorem setNames_eq (phase : SetPhase) (steps : List Step) :
    setNames phase steps = (phase.name? steps).toList ++ setNames .idle steps := by
  induction steps generalizing phase with
  | nil => cases phase <;> rfl
  | cons step steps ih =>
    by_cases set : isSet step = true
    · -- A `set` is none of the tokens to come, and every phase begins anew with it.
      have kind := kind_of_isSet set
      have broken : phase.name? (step :: steps) = none := by
        cases phase <;> simp [SetPhase.name?, wordBehind?, isVariable, kind]
      rw [broken, setNames.eq_def, setNames.eq_def .idle]
      simp only [if_pos set]
      rfl
    · rw [setNames.eq_def, setNames.eq_def .idle]
      simp only [if_neg set]
      cases phase with
      | idle => rfl
      | named =>
        simp only [SetPhase.name?, wordBehind?, isOpening, decide_eq_true_eq]
        split
        · exact ih .opened
        · rfl
      | opened =>
        simp only [SetPhase.name?, wordBehind?]
        by_cases word : step.token.kind = .identifier
        · by_cases env : step.tokenText = utf8 "ENV" ∧ step.following.head? = some Ascii.openBrace
          · simp [isVariable, word, env]
          · have named : isVariable step = true := isVariable_iff.mpr ⟨word, env⟩
            rw [if_pos word, if_neg (by rwa [← Bool.decide_and, decide_eq_true_iff]), if_pos named]
            rfl
        · simp [isVariable, word]

/-- In every phase the machine finds what the next tokens complete and what it finds from the
start. -/
theorem setEnvNames_eq (phase : EnvPhase) (steps : List Step) :
    setEnvNames phase steps = (phase.name? steps).toList ++ setEnvNames .idle steps := by
  induction steps generalizing phase with
  | nil => cases phase <;> rfl
  | cons step steps ih =>
    by_cases set : isSet step = true
    · have kind := kind_of_isSet set
      have broken : phase.name? (step :: steps) = none := by
        cases phase <;> simp [EnvPhase.name?, wordBehind?, isToken, kind]
      rw [broken, setEnvNames.eq_def, setEnvNames.eq_def .idle]
      simp only [if_pos set]
      rfl
    · rw [setEnvNames.eq_def, setEnvNames.eq_def .idle]
      simp only [if_neg set]
      cases phase with
      | idle => rfl
      | named =>
        simp only [EnvPhase.name?, wordBehind?, isOpening, decide_eq_true_eq]
        split
        · exact ih .opened
        · rfl
      | opened =>
        simp only [EnvPhase.name?, wordBehind?, isEnvMark]
        by_cases mark : isToken step .identifier (utf8 "ENV") = true
        · rw [if_pos mark, if_pos mark]
          exact ih .marked
        · rw [if_neg mark, if_neg mark]
          rfl
      | marked =>
        simp only [EnvPhase.name?, wordBehind?, isBrace]
        by_cases brace : isToken step .other [Ascii.openBrace] = true
        · rw [if_pos brace, if_pos brace]
          exact ih .braced
        · rw [if_neg brace, if_neg brace]
          rfl
      | braced =>
        simp only [EnvPhase.name?, wordBehind?, isIdentifier, decide_eq_true_eq]
        split
        · rfl
        · rfl

/-- Something found anew from each position on, in the order of the positions. -/
theorem eq_filterMap_drop {find : List Step → List Text} {found? : List Step → Option Text}
    (nil : find [] = [])
    (cons : ∀ step steps, find (step :: steps) = (found? (step :: steps)).toList ++ find steps)
    (steps : List Step) :
    find steps = (List.range steps.length).filterMap fun i => found? (steps.drop i) := by
  induction steps with
  | nil => exact nil
  | cons step steps ih =>
    rw [cons, ih, List.length_cons, List.range_succ_eq_map, List.filterMap_cons,
      List.filterMap_map, List.drop_zero]
    cases found? (step :: steps) with
    | none => rfl
    | some name => rfl

/-- The name of the variable that the first tokens set. -/
def setName? : List Step → Option Text := wordBehind? isVariable [isSet, isOpening]

/-- The name of the environment variable that the first tokens set. -/
def setEnvName? : List Step → Option Text :=
  wordBehind? isIdentifier [isSet, isOpening, isEnvMark, isBrace]

theorem setNames_eq_filterMap (steps : List Step) : setNames .idle steps =
    (List.range steps.length).filterMap fun i => setName? (steps.drop i) := by
  refine eq_filterMap_drop rfl (fun step steps => ?_) steps
  rw [setNames.eq_def, setName?, wordBehind?]
  by_cases set : isSet step = true
  · simp only [if_pos set]
    exact setNames_eq .named steps
  · simp only [if_neg set]
    rfl

theorem setEnvNames_eq_filterMap (steps : List Step) : setEnvNames .idle steps =
    (List.range steps.length).filterMap fun i => setEnvName? (steps.drop i) := by
  refine eq_filterMap_drop rfl (fun step steps => ?_) steps
  rw [setEnvNames.eq_def, setEnvName?, wordBehind?]
  by_cases set : isSet step = true
  · simp only [if_pos set]
    exact setEnvNames_eq .named steps
  · simp only [if_neg set]
    rfl

theorem setName?_drop_iff {steps : List Step} {i : Nat} {name : Text} :
    setName? (steps.drop i) = some name ↔ SetsVariableAt steps i name := by
  simp only [setName?, wordBehind?_cons_eq_some_iff, wordBehind?_nil_eq_some_iff]
  constructor
  · rintro ⟨set, _, row, isSet, opening, _, rfl, paren, word, rest, rfl, passes, rfl⟩
    obtain ⟨identifier, free⟩ := isVariable_iff.mp passes
    exact ⟨set, opening, word, rest, row, isSet, of_decide_eq_true paren, identifier, rfl, free⟩
  · rintro ⟨set, opening, word, rest, row, isSet, paren, identifier, rfl, free⟩
    exact ⟨set, _, row, isSet, opening, _, rfl, decide_eq_true paren, word, rest, rfl,
      isVariable_iff.mpr ⟨identifier, free⟩, rfl⟩

theorem isToken_iff {step : Step} {kind : TokenKind} {bytes : Text} :
    isToken step kind bytes = true ↔ step.token.kind = kind ∧ step.tokenText = bytes := by
  rw [isToken, Bool.and_eq_true, decide_eq_true_iff, decide_eq_true_iff]

theorem setEnvName?_drop_iff {steps : List Step} {i : Nat} {name : Text} :
    setEnvName? (steps.drop i) = some name ↔ SetsEnvVariableAt steps i name := by
  simp only [setEnvName?, wordBehind?_cons_eq_some_iff, wordBehind?_nil_eq_some_iff, isToken_iff,
    decide_eq_true_iff]
  constructor
  · rintro ⟨set, _, row, isSet, opening, _, rfl, paren, mark, _, rfl, ⟨env, text⟩, brace, _, rfl,
      ⟨other, byte⟩, word, rest, rfl, identifier, rfl⟩
    exact ⟨set, opening, mark, brace, word, rest, row, isSet, paren, env, text, other, byte,
      identifier, rfl⟩
  · rintro ⟨set, opening, mark, brace, word, rest, row, isSet, paren, env, text, other, byte,
      identifier, rfl⟩
    exact ⟨set, _, row, isSet, opening, _, rfl, paren, mark, _, rfl, ⟨env, text⟩, brace, _, rfl,
      ⟨other, byte⟩, word, rest, rfl, identifier, rfl⟩

/-- Of the names found at the positions of a script, but for those left out, the first occurrences
are kept and nothing else. -/
theorem distinctBy_eq_iff {found? : List Step → Option Text} {At : List Step → Nat → Text → Prop}
    (nil : found? [] = none)
    (at_iff : ∀ {steps i name}, found? (steps.drop i) = some name ↔ At steps i name)
    (key : Text → Text) (omits : Text → Bool) (steps : List Step) (names : List Text) :
    Text.distinctBy key (((List.range steps.length).filterMap fun i =>
        found? (steps.drop i)).filter (!omits ·)) = names ↔
      Text.FirstOccurrences key (fun i name => At steps i name ∧ omits name = false) names := by
  have numbered (i : Nat) (name : Text) : At steps i name ∧ omits name = false ↔
      i < steps.length ∧ (found? (steps.drop i)).filter (!omits ·) = some name := by
    rw [Option.filter_eq_some_iff, at_iff, Bool.not_eq_true']
    refine ⟨fun found => ⟨Nat.lt_of_not_le fun past => ?_, found⟩, fun found => found.2⟩
    have none := at_iff.mpr found.1
    rw [List.drop_eq_nil_of_le past, nil] at none
    cases none
  rw [List.filter_filterMap]
  have first := Text.firstOccurrences_distinctBy key numbered
  refine ⟨fun same => same ▸ first, fun others => first.unique ?_ others⟩
  rintro i name name' ⟨here, _⟩ ⟨here', _⟩
  exact Option.some.inj ((at_iff.mpr here).symm.trans (at_iff.mpr here'))

/-- **The variables of a script are the first that a `set` names.** They are the words, in order and
up to letter case, that directly follow a `set` and its parenthesis, also over a line end, but for
the standard variables and for `ENV` with a brace right behind it; the environment variables are
the words, in order, that directly follow a `set`, its parenthesis, `ENV` and a brace, but for the
well-known ones. No other lists are that. -/
theorem variables_eq_iff_first_set (lines : List Text) :
    (∀ names, normalVariables lines = names ↔ Text.FirstOccurrences Text.toUpper
      (fun i name => SetsVariableAt (Walk.steps lines) i name ∧ Variable.isStandard name = false)
      names) ∧
    ∀ names, envVariables lines = names ↔ Text.FirstOccurrences id
      (fun i name => SetsEnvVariableAt (Walk.steps lines) i name ∧
        Variable.isEnvironment name = false) names := by
  constructor
  · intro names
    rw [normalVariables, setNames_eq_filterMap]
    exact distinctBy_eq_iff rfl setName?_drop_iff ..
  · intro names
    rw [envVariables, setEnvNames_eq_filterMap]
    exact distinctBy_eq_iff rfl setEnvName?_drop_iff ..

end CMakeSense.Script
