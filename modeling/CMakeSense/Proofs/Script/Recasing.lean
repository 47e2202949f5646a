import CMakeSense.Proofs.Script.Heading
import CMakeSense.Proofs.Token.Recasing
import CMakeSense.Proofs.Token.Resuming
import CMakeSense.Script.Definition

/-! Scripts with names in other letter case. A script is compared with one that differs from it in
the case of letters in the names of its statements (`Script.Recased`). A name is followed by blanks
and comments up to its parenthesis and so by no brace (`Script.Heading.head?_following`), hence both
scripts have the same steps but for the bytes of names. Statements are read from the steps without
looking at these bytes until the name is held (`Statement.unnamed_readFrom`), and the readers of
`set` look at the bytes of a token only inside of an argument list, where they are kept: the phases
of those readers say where they are (`Script.SetPhase.Fits`, `Script.EnvPhase.Fits`). -/

namespace CMakeSense

open Statement
open Text (SameLetters)

namespace Step

variable {a b : Step}

theorem Recased.tokenText_eq (h : a.Recased b) (inside : 0 < a.before.depth.val) :
    b.tokenText = a.tokenText := by
  rcases h.move.text with same | ⟨_, outside⟩
  · exact same
  · exact absurd outside (Nat.ne_of_gt inside)

theorem Recased.token (h : a.Recased b) : b.token = a.token := h.move.token

theorem Recased.before (h : a.Recased b) : b.before = a.before := h.move.before

theorem Recased.after (h : a.Recased b) : b.after = a.after := h.move.after

theorem Recased.head?_following (h : a.Recased b) :
    b.following.head? = some Ascii.openBrace ↔ a.following.head? = some Ascii.openBrace := by
  rw [following, following, h.token]
  exact ((h.move.rest.drop a.token.length).head?_eq_some_iff rfl).symm

namespace Scanned

variable {step : Step}

/-- An argument list stays open unless a parenthesis closes it. -/
theorem depth_after_pos (h : step.Scanned) (inside : 0 < step.before.depth.val)
    (kind : step.token.kind ≠ .closeParen) : 0 < step.after.depth.val := by
  cases h.effect with
  | closes _ closing => exact absurd closing kind
  | stays _ _ _ within => exact within
  | opens outside | names outside | rests outside | breaks outside => omega

/-- The parenthesis that a word awaits opens its argument list. -/
theorem depth_after_openParen (h : step.Scanned) (outside : step.before.depth.val = 0)
    (awaits : step.before.awaitsParen = true) (kind : step.token.kind = .openParen) :
    0 < step.after.depth.val := by
  obtain ⟨_, c, t, _, next⟩ := h
  have kind : (Lexeme.next step.before c t).kind = .openParen := by
    rw [← next]
    exact kind
  have after : step.after = (Lexeme.openParen step.before).after := by
    rw [← Lexeme.next_eq_openParen kind, ← next]
    rfl
  have inside : ¬step.before.insideParens = true := by
    rw [State.insideParens_iff, outside]
    exact Nat.lt_irrefl 0
  rw [after, Lexeme.openParen, if_neg inside, if_pos awaits]
  exact Nat.one_pos

/-- A keyword awaits its parenthesis. -/
theorem awaits_of_keyword (h : step.Scanned) (keyword : step.token.kind = .keyword) :
    step.after.depth.val = 0 ∧ step.after.awaitsParen = true := by
  obtain ⟨_, outside, _⟩ := h.labelled.keyword.mp keyword
  have keyword : step.lexeme.kind = .keyword := keyword
  cases h.effect with
  | names _ _ _ _ _ after =>
    rw [show step.after = _ from after]
    exact ⟨outside, rfl⟩
  | opens _ _ kind | closes _ kind =>
    rw [kind] at keyword
    cases keyword
  | rests _ kind =>
    rcases kind with kind | kind <;>
    · rw [kind] at keyword
      cases keyword
  | breaks _ word =>
    rw [keyword] at word
    cases word
  | stays inside => exact absurd outside (Nat.ne_of_gt inside)

end Scanned

end Step

namespace Statement

/-- The statement but for the spelling of its name. -/
def unnamed (statement : Statement) : Statement := { statement with name := [] }

def Head.unnamed (head : Head) : Head := { head with name := [] }

theorem unnamed_statement (head : Head) (arguments : List Text) (closed : Bool) :
    (head.statement arguments closed).unnamed = head.unnamed.statement arguments closed := rfl

namespace Reading

/-- What has been read but for the spelling of names. -/
def unnamed : Reading → Reading
  | .between head? => .between (head?.map Head.unnamed)
  | .within head args => .within head.unnamed args

section Token
variable {a b : Step} (recased : a.Recased b)
include recased

theorem unnamed_afterOutside {head? head?' : Option Head}
    (same : head?'.map Head.unnamed = head?.map Head.unnamed) :
    (afterOutside head?' b).unnamed = (afterOutside head? a).unnamed := by
  have head : (Head.ofStep b).unnamed = (Head.ofStep a).unnamed := by
    simp only [Head.ofStep, Head.unnamed, recased.token, recased.line]
  unfold afterOutside
  rw [recased.token]
  split
  · exact congrArg (fun head => Reading.between (some head)) head
  · exact congrArg (fun head => Reading.between (some head)) head
  · split
    · cases head? with
      | none => rw [Option.map_eq_none_iff.mp same]
      | some held =>
        obtain ⟨held', rfl, named⟩ := Option.map_eq_some_iff.mp same
        simp only [unnamed, named, recased.line]
    · rfl
  · exact congrArg Reading.between same
  · exact congrArg Reading.between same
  · rfl

theorem add_of_recased (inside : 0 < a.before.depth.val) (args : Arguments) :
    args.add b = args.add a := by
  simp only [Arguments.add, Arguments.enterLine, recased.line, recased.before, recased.token,
    recased.tokenText_eq inside]

/-- One token in other letter case turns reading the same way. -/
theorem unnamed_after {reading reading' : Reading} (fits : reading.Fits a.before)
    (same : reading'.unnamed = reading.unnamed) :
    (reading'.after b).unnamed = (reading.after a).unnamed ∧
      (reading'.completes? b).map Statement.unnamed =
        (reading.completes? a).map Statement.unnamed := by
  have closes : b.closesList = a.closesList := by rw [Step.closesList, recased.token]; rfl
  cases reading with
  | between head? =>
    cases reading' with
    | within head' args' => cases same
    | between head?' => exact ⟨unnamed_afterOutside recased (Reading.between.inj same), rfl⟩
  | within head args =>
    cases reading' with
    | between head?' => cases same
    | within head' args' =>
      obtain ⟨hhead, rfl⟩ := Reading.within.inj same
      simp only [after, completes?, closes, add_of_recased recased fits.1]
      cases a.closesList with
      | true =>
        refine ⟨rfl, ?_⟩
        simp only [if_true, Option.map_some, unnamed_statement, hhead]
      | false => exact ⟨congrArg (Reading.within · _) hhead, rfl⟩

end Token

end Reading

/-- Steps in other letter case are read as the same statements but for the spelling of names. -/
theorem unnamed_readFrom {reading reading' : Reading} {s t : State} {xs ys : List Step}
    (fits : reading.Fits s) (run : Walk.Run s xs t) (recased : List.Forall₂ Step.Recased xs ys)
    (same : reading'.unnamed = reading.unnamed) :
    (readFrom reading' ys).map unnamed = (readFrom reading xs).map unnamed := by
  induction run generalizing reading reading' ys with
  | nil =>
    cases recased
    cases reading with
    | between head? =>
      cases reading' with
      | between head?' => rfl
      | within head' args' => cases same
    | within head args =>
      cases reading' with
      | between head?' => cases same
      | within head' args' =>
        obtain ⟨hhead, rfl⟩ := Reading.within.inj same
        simp only [readFrom, List.map_cons, List.map_nil, unnamed_statement, hhead]
  | cons scanned _ ih =>
    cases recased with
    | cons first rest =>
      obtain ⟨_, rfl, _, fits'⟩ := fits.turn scanned
      obtain ⟨after, completes⟩ := Reading.unnamed_after first fits same
      rw [readFrom_cons, readFrom_cons, List.map_append, List.map_append, ← Option.toList_map,
        ← Option.toList_map, completes, ih fits' rest after]

end Statement

namespace Script

/-- What the phase of reading a `set` says of the state. -/
def SetPhase.Fits : SetPhase → State → Prop
  | .idle, _ => True
  | .named, s => s.depth.val = 0 ∧ s.awaitsParen = true
  | .opened, s => 0 < s.depth.val

theorem SetPhase.fits_named {step : Step} (scanned : step.Scanned) (set : isSet step = true) :
    SetPhase.named.Fits step.after := by
  simp only [isSet, Bool.and_eq_true, decide_eq_true_eq] at set
  exact scanned.awaits_of_keyword set.1

theorem setNames_of_recased {phase : SetPhase} {s t : State} {xs ys : List Step}
    (fits : phase.Fits s) (run : Walk.Run s xs t) (recased : List.Forall₂ Step.Recased xs ys) :
    setNames phase ys = setNames phase xs := by
  induction run generalizing phase ys with
  | nil =>
    cases recased
    rfl
  | @cons a xs t scanned _ ih =>
    cases recased with
    | @cons _ b _ ys first rest =>
      have set : isSet b = isSet a := by rw [isSet, isSet, first.token]
      rw [setNames.eq_def, setNames.eq_def _ (a :: xs)]
      simp only [set, first.token]
      split
      · next isSet => exact ih (SetPhase.fits_named scanned isSet) rest
      · cases phase with
        | idle => exact ih trivial rest
        | named =>
          simp only
          split
          · next kind => exact ih (scanned.depth_after_openParen fits.1 fits.2 kind) rest
          · exact ih trivial rest
        | opened =>
          have idle : setNames .idle ys = setNames .idle xs := ih trivial rest
          simp only [first.tokenText_eq fits, idle, first.head?_following]

theorem depth_after_isToken {step : Step} (h : step.Scanned) (inside : 0 < step.before.depth.val)
    {kind : TokenKind} {bytes : Text} (other : kind ≠ .closeParen)
    (token : isToken step kind bytes = true) : 0 < step.after.depth.val := by
  simp only [isToken, Bool.and_eq_true, decide_eq_true_eq] at token
  exact h.depth_after_pos inside (token.1 ▸ other)

/-- What the phase of reading a `set` of an environment variable says of the state. -/
def EnvPhase.Fits : EnvPhase → State → Prop
  | .idle, _ => True
  | .named, s => s.depth.val = 0 ∧ s.awaitsParen = true
  | .opened, s | .marked, s | .braced, s => 0 < s.depth.val

theorem isToken_of_recased {a b : Step} (recased : a.Recased b) (inside : 0 < a.before.depth.val)
    (kind : TokenKind) (bytes : Text) : isToken b kind bytes = isToken a kind bytes := by
  rw [isToken, isToken, recased.token, recased.tokenText_eq inside]

theorem setEnvNames_of_recased {phase : EnvPhase} {s t : State} {xs ys : List Step}
    (fits : phase.Fits s) (run : Walk.Run s xs t) (recased : List.Forall₂ Step.Recased xs ys) :
    setEnvNames phase ys = setEnvNames phase xs := by
  induction run generalizing phase ys with
  | nil =>
    cases recased
    rfl
  | @cons a xs t scanned _ ih =>
    cases recased with
    | @cons _ b _ ys first rest =>
      have set : isSet b = isSet a := by rw [isSet, isSet, first.token]
      have idle : setEnvNames .idle ys = setEnvNames .idle xs := ih trivial rest
      rw [setEnvNames.eq_def, setEnvNames.eq_def _ (a :: xs)]
      simp only [set, first.token]
      split
      · next isSet =>
        have named : EnvPhase.named.Fits a.after := SetPhase.fits_named scanned isSet
        exact ih named rest
      · cases phase with
        | idle => exact idle
        | named =>
          simp only
          split
          · next kind =>
            have opened : EnvPhase.opened.Fits a.after :=
              scanned.depth_after_openParen fits.1 fits.2 kind
            exact ih opened rest
          · exact idle
        | opened =>
          simp only [isToken_of_recased first fits]
          split
          · next mark =>
            have marked : EnvPhase.marked.Fits a.after :=
              depth_after_isToken scanned fits (by decide) mark
            exact ih marked rest
          · exact idle
        | marked =>
          simp only [isToken_of_recased first fits]
          split
          · next mark =>
            have braced : EnvPhase.braced.Fits a.after :=
              depth_after_isToken scanned fits (by decide) mark
            exact ih braced rest
          · exact idle
        | braced => simp only [first.tokenText_eq fits, idle]

/-- A name is not followed by a brace, which would give it up. -/
theorem Heading.head?_following {lines : List Text} {k : Nat} {name opening : Step}
    (h : Heading lines k name opening) : name.following.head? ≠ some Ascii.openBrace := by
  obtain ⟨before, gap, rest, split, blank, kind⟩ := h.exists_gap
  obtain ⟨_, c, t, hrest, next⟩ := h.scanned
  obtain ⟨_, _, _, _, _, steps⟩ := Walk.eq_stepsAt_of_split split
  have length : name.token.length = (Lexeme.next name.before c t).length :=
    congrArg Lexeme.length next
  have reads : Lexeme.ReadsWord name.before c t := by
    apply Lexeme.readsWord_of_isWord
    rw [← next]
    exact h.isWord
  rw [hrest, Walk.stepsAt_cons rfl] at steps
  obtain ⟨_, steps⟩ := List.cons.inj steps
  intro brace
  rw [Step.following, hrest, length] at brace
  obtain ⟨u, hu⟩ := List.head?_eq_some_iff.mp brace
  have other :
      (Lexeme.next (Lexeme.next name.before c t).after Ascii.openBrace u).kind = .other := by
    apply Lexeme.kind_next_openBrace
    · rw [reads.next_eq, Lexeme.inComment_word, reads.comment]
    · rw [reads.next_eq, Lexeme.inString_word, reads.string]
  rw [hu, Walk.stepsAt_cons rfl] at steps
  -- the token of the brace would be the first of the gap, or the parenthesis itself
  cases gap with
  | nil =>
    obtain ⟨rfl, _⟩ := List.cons.inj steps
    exact absurd (other.symm.trans kind) (by decide)
  | cons step gap =>
    obtain ⟨rfl, _⟩ := List.cons.inj steps
    rcases blank _ List.mem_cons_self with kind | kind
    · exact absurd (other.symm.trans kind) (by decide)
    · exact absurd (other.symm.trans kind) (by decide)

end Script

/-- The byte at a spot. -/
def Spot.byte? (lines : List Text) (spot : Spot) : Option UInt8 :=
  lines[spot.line]?.bind (·[spot.column]?)

/-- The spot lies in the name of a statement. -/
def Spot.InName (lines : List Text) (spot : Spot) : Prop :=
  ∃ k name opening, Script.Heading lines k name opening ∧ name.Covers spot

namespace Script

/-- The second script is the first one with letters in other case in the names of its statements. -/
structure Recased (lines lines' : List Text) : Prop where
  shape : lines'.map List.length = lines.map List.length
  bytes : ∀ (spot : Spot) (c c' : UInt8), spot.byte? lines = some c → spot.byte? lines' = some c' →
    c' = c ∨ Ascii.lower c' = Ascii.lower c ∧ spot.InName lines

namespace Recased

variable {lines lines' : List Text}

theorem length_eq (h : Recased lines lines') : lines'.length = lines.length := by
  simpa using congrArg List.length h.shape

section Line
variable {i : Nat} {text text' : Text} (htext : lines[i]? = some text)
  (htext' : lines'[i]? = some text')
include htext htext'

theorem length_text_eq (h : Recased lines lines') : text'.length = text.length := by
  have lengths := congrArg (·[i]?) h.shape
  simpa [htext, htext'] using lengths

theorem byte_cases (h : Recased lines lines') {j : Nat} {c c' : UInt8} (hc : text[j]? = some c)
    (hc' : text'[j]? = some c') :
    c' = c ∨ Ascii.lower c' = Ascii.lower c ∧ Spot.InName lines ⟨i, j⟩ := by
  refine h.bytes ⟨i, j⟩ c c' ?_ ?_
  · rw [Spot.byte?, htext]
    exact hc
  · rw [Spot.byte?, htext']
    exact hc'

theorem sameLetters (h : Recased lines lines') : SameLetters text text' := by
  have length := h.length_text_eq htext htext'
  refine List.ext_getElem (by simp [length]) fun j bound bound' => ?_
  rw [List.length_map] at bound bound'
  rw [List.getElem_map, List.getElem_map]
  rcases h.byte_cases htext htext' (List.getElem?_eq_getElem bound)
    (List.getElem?_eq_getElem bound') with same | ⟨same, _⟩
  · rw [same]
  · exact same.symm

end Line

theorem letters (h : Recased lines lines') : List.Forall₂ SameLetters lines lines' := by
  rw [List.forall₂_iff_get]
  refine ⟨h.length_eq.symm, fun i bound bound' => ?_⟩
  exact h.sameLetters (List.getElem?_eq_getElem bound) (List.getElem?_eq_getElem bound')

/-- Every step keeps its bytes but for the names of statements. -/
theorem keeps (h : Recased lines lines') {step : Step} (member : step ∈ Walk.steps lines)
    {text' : Text} (htext' : lines'[step.line]? = some text') :
    step.move.Keeps (text'.drop step.token.start) := by
  obtain ⟨before, after, split⟩ := List.append_of_mem member
  obtain ⟨line, text, hline, htext, hrest, _⟩ := Walk.eq_stepsAt_of_split split
  rw [show line = step.line by omega] at htext
  by_cases named : ∃ k opening, Heading lines k step opening
  · obtain ⟨k, opening, heading⟩ := named
    exact .inr ⟨heading.isWord, heading.outside, heading.head?_following⟩
  · left
    show (text'.drop step.token.start).take step.token.length = step.rest.take step.token.length
    rw [hrest]
    refine List.ext_getElem? fun j => ?_
    by_cases inside : j < step.token.length
    · rw [List.getElem?_take_of_lt inside, List.getElem?_take_of_lt inside, List.getElem?_drop,
        List.getElem?_drop]
      have length := h.length_text_eq htext htext'
      by_cases bound : step.token.start + j < text.length
      · have bound' : step.token.start + j < text'.length := by omega
        rw [List.getElem?_eq_getElem bound, List.getElem?_eq_getElem bound']
        rcases h.byte_cases htext htext' (List.getElem?_eq_getElem bound)
          (List.getElem?_eq_getElem bound') with same | ⟨_, k, name, opening, heading, covers⟩
        · rw [same]
        · have covers' : step.Covers ⟨step.line, step.token.start + j⟩ := by
            rw [Token.length] at inside
            exact ⟨rfl, Nat.le_add_right .., by simp only; omega⟩
          obtain rfl := Walk.eq_of_covers heading.mem_steps member covers covers'
          exact absurd ⟨k, opening, heading⟩ named
      · rw [List.getElem?_eq_none (by omega), List.getElem?_eq_none (by omega)]
    · rw [List.getElem?_take_eq_none (by omega), List.getElem?_take_eq_none (by omega)]

theorem forall₂_steps (h : Recased lines lines') :
    List.Forall₂ Step.Recased (Walk.steps lines) (Walk.steps lines') :=
  Walk.forall₂_stepsFrom_of_keeps h.letters fun _ member _ found => h.keeps member found

end Recased

/-- What is read off statements apart from the spelling of their names. -/
theorem filterMap_eq_of_unnamed {α : Type} {f : Statement → Option α} {xs ys : List Statement}
    (same : ys.map Statement.unnamed = xs.map Statement.unnamed)
    (nameless : ∀ statement, f statement.unnamed = f statement) :
    ys.filterMap f = xs.filterMap f := by
  have through (zs : List Statement) :
      zs.filterMap f = (zs.map Statement.unnamed).filterMap f := by
    rw [List.filterMap_map]
    exact List.filterMap_congr fun statement _ => (nameless statement).symm
  rw [through, same, ← through]

theorem definedBy_eq_of_unnamed {lines lines' : List Text}
    (same : (statements lines').map Statement.unnamed = (statements lines).map Statement.unnamed)
    (command : Command) : definedBy command lines' = definedBy command lines := by
  rw [definedBy, definedBy, filterMap_eq_of_unnamed same fun _ => rfl]

theorem map_of_recased {xs ys : List Step} (h : List.Forall₂ Step.Recased xs ys) :
    ys.map (fun step => (step.line, step.token, step.before, step.after)) =
      xs.map fun step => (step.line, step.token, step.before, step.after) := by
  induction h with
  | nil => rfl
  | cons first _ ih =>
    rw [List.map_cons, List.map_cons, first.line, first.token, first.before, first.after, ih]

/-- **Names of commands are read in any letter case.** In a script with letters in other case in the
names of its statements, the tokens have the same places, labels and states around them, the
statements are the same but for the spelling of their names, and so is everything that the script
defines. -/
theorem parse_of_recased {lines lines' : List Text} (h : Recased lines lines') :
    (Walk.steps lines').map (fun step => (step.line, step.token, step.before, step.after)) =
        (Walk.steps lines).map (fun step => (step.line, step.token, step.before, step.after)) ∧
      (statements lines').map (fun statement => { statement with name := [] }) =
        (statements lines).map (fun statement => { statement with name := [] }) ∧
      normalVariables lines' = normalVariables lines ∧ envVariables lines' = envVariables lines ∧
      cacheVariables lines' = cacheVariables lines ∧ functions lines' = functions lines ∧
      macros lines' = macros lines ∧ targets lines' = targets lines ∧ tests lines' = tests lines ∧
      includes lines' = includes lines := by
  have recased := h.forall₂_steps
  have run := Walk.run_steps lines
  have same :
      (statements lines').map Statement.unnamed = (statements lines).map Statement.unnamed :=
    unnamed_readFrom Reading.fits_start run recased rfl
  have names : setNames .idle (Walk.steps lines') = setNames .idle (Walk.steps lines) :=
    setNames_of_recased trivial run recased
  have envNames : setEnvNames .idle (Walk.steps lines') = setEnvNames .idle (Walk.steps lines) :=
    setEnvNames_of_recased trivial run recased
  refine ⟨map_of_recased recased, same, ?_, ?_, ?_, definedBy_eq_of_unnamed same _,
    definedBy_eq_of_unnamed same _, ?_, ?_, ?_⟩
  · rw [normalVariables, normalVariables, names]
  · rw [envVariables, envVariables, envNames]
  · rw [cacheVariables, cacheVariables, filterMap_eq_of_unnamed same fun _ => rfl]
  · rw [targets, targets, filterMap_eq_of_unnamed same fun _ => rfl]
  · rw [tests, tests, filterMap_eq_of_unnamed same fun _ => rfl]
  · rw [includes, includes, filterMap_eq_of_unnamed same fun _ => rfl]

theorem parse_of_recased_set :
    Recased [utf8 "Set(A b)"] [utf8 "sET(A b)"] ∧
      normalVariables [utf8 "sET(A b)"] = normalVariables [utf8 "Set(A b)"] := by
  let lines := [utf8 "Set(A b)"]
  have read : (statements lines)[0]? = some
      ⟨Command.ofName? (utf8 "set"), utf8 "Set", 0, [utf8 "A", utf8 "b"], true⟩ := by
    decide +kernel
  obtain ⟨name, opening, heading⟩ := exists_heading read
  have place : ∀ step ∈ Walk.steps lines, step.token.kind.isWord = true ∧
      step.before.depth.val = 0 → step.line = 0 ∧ step.token.start = 0 ∧ step.token.stop = 3 := by
    decide +kernel
  obtain ⟨line, start, stop⟩ := place name heading.mem_steps ⟨heading.isWord, heading.outside⟩
  have bytes : ∀ j < 8, ∀ c ∈ (utf8 "Set(A b)")[j]?, ∀ c' ∈ (utf8 "sET(A b)")[j]?,
      c' = c ∨ Ascii.lower c' = Ascii.lower c ∧ j < 3 := by decide +kernel
  have recased : Recased lines [utf8 "sET(A b)"] := by
    refine ⟨by decide +kernel, ?_⟩
    rintro ⟨i, j⟩ c c' hc hc'
    cases i with
    | succ i => cases hc
    | zero =>
      have bound : j < 8 := (List.getElem?_eq_some_iff.mp hc).1
      rcases bytes j bound c hc c' hc' with same | ⟨same, inside⟩
      · exact .inl same
      · refine .inr ⟨same, 0, name, opening, heading, line, ?_, ?_⟩
        · rw [start]
          exact Nat.zero_le j
        · rw [stop]
          exact inside
  exact ⟨recased, (parse_of_recased recased).2.2.1⟩

end Script

end CMakeSense
