import CMakeSense.Proofs.Script.Reading
import CMakeSense.Proofs.Token.Resuming

/-! The bytes of arguments. An argument is put together from the texts of tokens, which are taken
from their lines, and from the newlines that strings keep, so its bytes are newlines or bytes of the
script (`Script.spelled_arguments`). -/

namespace CMakeSense

theorem mem_of_mem_unquote {argument : Text} {c : UInt8} (h : c ∈ unquote argument) :
    c ∈ argument := by
  unfold unquote at h
  split at h
  · exact List.mem_of_mem_tail ((List.dropLast_sublist _).mem h)
  · cases argument with
    | nil => cases h
    | cons b argument =>
      by_cases quote : Ascii.quote = b
      · rw [Text.trimPrefix, Text.dropPrefix?, if_pos quote] at h
        exact List.mem_cons_of_mem b h
      · rwa [Text.trimPrefix, Text.dropPrefix?, if_neg quote] at h

/-- What does not begin with a quote has none around it. -/
theorem unquote_eq_self {argument : Text} (h : argument.head? ≠ some Ascii.quote) :
    unquote argument = argument := by
  cases argument with
  | nil => rfl
  | cons c t =>
    have other : c ≠ Ascii.quote := fun same => h (congrArg some same)
    simp [unquote, Text.trimPrefix, Text.dropPrefix?, other, other.symm]

variable {P : UInt8 → Prop}

namespace Arguments

/-- All bytes read so far have the property. -/
structure Spelled (P : UInt8 → Prop) (args : Arguments) : Prop where
  done : ∀ argument ∈ args.done, ∀ c ∈ argument, P c
  pending : ∀ argument ∈ args.pending, ∀ c ∈ argument, P c

theorem spelled_start (line : Nat) : (start line).Spelled P := ⟨nofun, nofun⟩

variable {args : Arguments}

theorem Spelled.flush (h : args.Spelled P) : args.flush.Spelled P := by
  refine ⟨fun argument member c hc => ?_, by simp⟩
  rw [done_flush, List.mem_append, Option.mem_toList, Option.map_eq_some_iff] at member
  rcases member with ended | ⟨bytes, begun, rfl⟩
  · exact h.done argument ended c hc
  · exact h.pending bytes begun c (mem_of_mem_unquote hc)

theorem Spelled.append (h : args.Spelled P) {bytes : Text} (spelled : ∀ c ∈ bytes, P c) :
    (args.append bytes).Spelled P := by
  refine ⟨h.done, fun argument member c hc => ?_⟩
  rw [pending_append, Option.mem_some_iff] at member
  subst member
  rcases List.mem_append.mp hc with earlier | new
  · cases begun : args.pending with
    | none => simp [begun] at earlier
    | some before =>
      rw [begun] at earlier
      exact h.pending before begun c earlier
  · exact spelled c new

/-- One token keeps the property. -/
theorem Spelled.add (h : args.Spelled P) (newline : P Ascii.newline) {step : Step}
    (text : ∀ c ∈ step.tokenText, P c) : (args.add step).Spelled P := by
  have entered : (args.enterLine step).Spelled P := by
    unfold enterLine
    split
    · exact h
    split
    · have spelled : ∀ c ∈ [Ascii.newline], P c := by simpa using newline
      obtain ⟨done, pending⟩ := h.append spelled
      exact ⟨done, pending⟩
    · obtain ⟨done, pending⟩ := h.flush
      exact ⟨done, pending⟩
  rcases args.add_cases step with added | added | added
  · exact added ▸ entered.flush
  · exact added ▸ entered
  · exact added ▸ entered.append text

end Arguments

namespace Statement

def Reading.Spelled (P : UInt8 → Prop) : Reading → Prop
  | .between _ => True
  | .within _ args => args.Spelled P

theorem Reading.Spelled.after {reading : Reading} (h : reading.Spelled P)
    (newline : P Ascii.newline) {step : Step} (text : ∀ c ∈ step.tokenText, P c) :
    (reading.after step).Spelled P := by
  cases reading with
  | between head? =>
    rw [Reading.after]
    unfold afterOutside
    split
    · trivial
    · trivial
    · split
      · split
        · exact Arguments.spelled_start _
        · trivial
      · trivial
    · trivial
    · trivial
    · trivial
  | within head args =>
    rw [Reading.after]
    split
    · trivial
    · exact Arguments.Spelled.add h newline text

theorem spelled_readFrom {reading : Reading} (h : reading.Spelled P) (newline : P Ascii.newline)
    {steps : List Step} (texts : ∀ step ∈ steps, ∀ c ∈ step.tokenText, P c) {statement : Statement}
    (member : statement ∈ readFrom reading steps) :
    ∀ argument ∈ statement.arguments, ∀ c ∈ argument, P c := by
  induction steps generalizing reading with
  | nil =>
    cases reading with
    | between head? => cases member
    | within head args =>
      rw [readFrom, List.mem_singleton] at member
      subst member
      exact (Arguments.Spelled.flush h).done
  | cons step steps ih =>
    have text := texts step List.mem_cons_self
    rw [readFrom_cons, List.mem_append, Option.mem_toList] at member
    rcases member with completed | later
    · cases reading with
      | between head? => cases completed
      | within head args =>
        rw [Reading.completes?] at completed
        split at completed
        · cases completed
          exact (Arguments.Spelled.add h newline text).done
        · cases completed
    · refine ih (h.after newline text) (fun step here => ?_) later
      exact texts step (List.mem_cons_of_mem _ here)

end Statement

/-- What a line holds from a token on are bytes of the line. -/
theorem Walk.mem_line_of_mem_rest {lines : List Text} {step : Step} (h : step ∈ steps lines)
    {c : UInt8} (hc : c ∈ step.rest) : ∃ line ∈ lines, c ∈ line := by
  obtain ⟨text, hline, move, member, same⟩ := exists_move_of_mem_steps h
  rw [same] at hc
  rw [Scan.moves_eq] at member
  obtain ⟨before, after, split⟩ := List.append_of_mem member
  obtain ⟨_, rest, _⟩ := Scan.eq_movesFrom_of_split split
  refine ⟨text, List.mem_of_getElem? hline, ?_⟩
  have inRest : c ∈ move.rest := hc
  rw [rest] at inRest
  exact List.mem_of_mem_drop inRest

/-- The bytes of a token are bytes of its line. -/
theorem Walk.mem_line_of_mem_tokenText {lines : List Text} {step : Step} (h : step ∈ steps lines)
    {c : UInt8} (hc : c ∈ step.tokenText) : ∃ line ∈ lines, c ∈ line :=
  mem_line_of_mem_rest h (List.mem_of_mem_take hc)

/-- The bytes of arguments are newlines or bytes of the script. -/
theorem Script.spelled_arguments {lines : List Text} (newline : P Ascii.newline)
    (h : ∀ line ∈ lines, ∀ c ∈ line, P c) {statement : Statement}
    (member : statement ∈ statements lines) :
    ∀ argument ∈ statement.arguments, ∀ c ∈ argument, P c := by
  have start : Statement.Reading.Spelled P (.between none) := trivial
  refine Statement.spelled_readFrom start newline ?_ member
  intro step here c hc
  obtain ⟨line, inside, hline⟩ := Walk.mem_line_of_mem_tokenText here hc
  exact h line inside c hline

end CMakeSense
