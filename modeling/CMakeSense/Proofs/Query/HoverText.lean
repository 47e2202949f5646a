import CMakeSense.Proofs.Query.Tip
import CMakeSense.Proofs.Script.Heading
import CMakeSense.Proofs.Token.Resuming
import CMakeSense.Query.Hover

/-! Hover texts against call tips. A hover text is found from the line of a word alone, scanned from
the state at its start, and a call tip from the walk up to a parenthesis. For the word and the
parenthesis that a statement begins with (`Script.Heading`) both come to the same signature: the one
that is known for the command named there, called without arguments. -/

namespace CMakeSense

/-- The name that a hover text shows for the command of a statement. -/
def Statement.title (statement : Statement) : Text :=
  match statement.command with
  | some command => command.name
  | none => statement.name

theorem Parameter.call_ne_nil (name : Text) (parameters : List Parameter) :
    call name parameters ≠ [] := by
  simp [call]

open Statement

section Heading
variable {source : Source} {k : Nat} {name opening : Step}
  (heading : Script.Heading source.lines k name opening)
include heading

/-- The hover text at the name of a statement. -/
theorem Hover.around?_of_heading {column : Int} (inside : name.token.contains column = true) :
    around? source ⟨name.line, column⟩ = ofWord? source name.tokenText name.token := by
  obtain ⟨text, htext, move, found, same⟩ := Walk.exists_move_of_mem_steps heading.mem_steps
  have token : move.token = name.token := by rw [same]; rfl
  have before : move.before = name.before := by rw [same]; rfl
  have bytes : name.token.text text = name.tokenText := by
    rw [← token, Scan.text_eq_tokenText found, same]
    rfl
  rw [← token] at inside
  rw [Scan.moves_eq] at found
  have found := Scan.find?_contains found inside
  have closed : ¬move.before.insideParens = true := by
    rw [before, State.insideParens_iff, heading.outside]
    exact Nat.lt_irrefl 0
  rw [around?, if_neg (Int.not_lt.mpr (Int.natCast_nonneg _))]
  simp only [Int.toNat_natCast, htext, Option.bind_eq_bind, Option.bind_some, Scan.moves_eq, found,
    if_neg closed, token, bytes]

/-- The call tip at the parenthesis of a statement. -/
theorem CallTip.around?_of_heading :
    Answers source name.token.command name.tokenText [] none
      (around? source ⟨opening.line, opening.token.start⟩) := by
  obtain ⟨front, rest, split, _, _, _, _, _, read⟩ := heading.exists_split
  have member : opening ∈ Walk.steps source.lines :=
    split ▸ List.mem_append_right _ List.mem_cons_self
  have bound : opening.line < source.lines.length := by
    have := (Walk.line_of_mem_stepsFrom member).2
    omega
  rw [around?_eq_atLine? (Position.lineIn?_of_lt bound _)]
  have within : Script.readingAt source.lines opening.line opening.token.start =
      .within (.ofStep name) (.start opening.line) := by
    rw [Script.readingAt, Walk.upTo_of_split split, read]
  exact atLine?_of_within within

end Heading

/-- A call without arguments has the parameters that are known for its command. -/
theorem Signature.find?_of_command (source : Source) (command : Command) (name : Text) :
    find? source (some command) name [] = command.parameters?.map fun parameters =>
      ⟨none, parameters⟩ := rfl

theorem CallTip.Answers.parameters_eq {source : Source} {command : Option Command} {name : Text}
    {arguments : List Text} {endSpan? : Option Span} {tip? : Option CallTip}
    (answers : Answers source command name arguments endSpan? tip?) :
    tip?.map (·.parameters) = (Signature.find? source command name arguments).map (·.slots) := by
  cases tip? with
  | none => rw [show Signature.find? source command name arguments = none from answers]; rfl
  | some tip =>
    obtain ⟨signature, found, _, _, _, parameters, _⟩ := answers
    rw [found, Option.map_some, Option.map_some, parameters]

/-- The hover text of a word shows the signature of a call without arguments. -/
theorem Hover.ofWord?_eq {source : Source} {word : Step} (scanned : word.Scanned)
    (isWord : word.token.kind.isWord = true) (arguments : List Text) (closed : Bool) :
    ofWord? source word.tokenText word.token =
      ((Signature.find? source word.token.command word.tokenText []).map (·.slots)).map
        (Parameter.call ((Head.ofStep word).statement arguments closed).title) := by
  obtain ⟨_, keyword, command⟩ := scanned.labelled
  have command : word.token.command =
      if word.token.kind = .keyword then Command.ofName? word.tokenText else none := command
  have title : ((Head.ofStep word).statement arguments closed).title =
      match word.token.command with
      | some command => command.name
      | none => word.tokenText := rfl
  rw [title]
  cases kind : word.token.kind with
  | keyword =>
    obtain ⟨known, named⟩ := Option.isSome_iff_exists.mp (keyword.mp kind).2.2
    rw [if_pos kind, show Command.ofName? word.tokenText = some known from named] at command
    simp only [ofWord?, kind, command, Signature.find?_of_command, Option.map_map]
    rfl
  | identifier =>
    rw [if_neg (by simp [kind])] at command
    simp only [ofWord?, kind, command, Signature.find?, Option.map_map]
    rfl
  | _ => simp [kind, TokenKind.isWord] at isWord

/-- **Hover text and call tip agree.** At the name of a statement there is a hover text exactly when
there is a call tip at its opening parenthesis, and the text is the call that the parameters of the
tip spell, of a built-in command by its own name and of another one by the name as written. -/
theorem Hover.text_agrees_tip (source : Source) {k : Nat} {statement : Statement}
    (h : (Script.statements source.lines)[k]? = some statement) :
    (∃ name opening, Script.Heading source.lines k name opening) ∧
    ∀ name opening, Script.Heading source.lines k name opening →
      statement.name = name.tokenText ∧ statement.line = name.line ∧
      statement.command = name.token.command ∧
      ∀ column, name.token.contains column = true →
        Hover.around? source ⟨name.line, column⟩ ≠ some [] ∧
        Hover.around? source ⟨name.line, column⟩ =
          (CallTip.around? source ⟨opening.line, opening.token.start⟩).map fun tip =>
            Parameter.call statement.title tip.parameters := by
  refine ⟨Script.exists_heading h, fun name opening heading => ?_⟩
  obtain ⟨arguments, closed, begun⟩ := heading.exists_statement
  obtain rfl := Option.some.inj (h.symm.trans begun)
  refine ⟨rfl, rfl, rfl, fun column inside => ?_⟩
  have answers := (CallTip.around?_of_heading heading).parameters_eq
  rw [Hover.around?_of_heading heading inside,
    Hover.ofWord?_eq heading.scanned heading.isWord arguments closed, ← answers, Option.map_map]
  refine ⟨fun empty => ?_, rfl⟩
  obtain ⟨tip, _, text⟩ := Option.map_eq_some_iff.mp empty
  exact Parameter.call_ne_nil _ _ text

theorem Hover.text_agrees_tip_across_lines :
    ∃ source : Source, source.lines = [utf8 "SET", utf8 "(A)"] ∧
      (CallTip.around? source ⟨1, 0⟩).isSome = true ∧
      Hover.around? source ⟨0, 1⟩ = (CallTip.around? source ⟨1, 0⟩).map fun tip =>
        Parameter.call (utf8 "set") tip.parameters := by
  let lines := [utf8 "SET", utf8 "(A)"]
  refine ⟨⟨[], lines, .absent, ⟨false, []⟩⟩, rfl, by decide +kernel, ?_⟩
  have read : (Script.statements lines)[0]? = some
      ⟨Command.ofName? (utf8 "set"), utf8 "SET", 0, [utf8 "A"], true⟩ := by decide +kernel
  obtain ⟨⟨name, opening, heading⟩, agrees⟩ :=
    text_agrees_tip ⟨[], lines, .absent, ⟨false, []⟩⟩ read
  obtain ⟨_, line, _, agrees⟩ := agrees name opening heading
  obtain ⟨front, rest, split, opens, _⟩ := heading.exists_split
  have place : ∀ step ∈ Walk.steps lines, (step.line = 0 → step.token.contains 1 = true) ∧
      (step.opensList = true → step.line = 1 ∧ step.token.start = 0) := by decide +kernel
  have inside := (place name heading.mem_steps).1 line.symm
  obtain ⟨below, first⟩ :=
    (place opening (split ▸ List.mem_append_right _ List.mem_cons_self)).2 opens
  have same := (agrees 1 inside).2
  rw [← line, below, first] at same
  exact same

end CMakeSense
