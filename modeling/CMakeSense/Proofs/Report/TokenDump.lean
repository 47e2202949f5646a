import CMakeSense.Proofs.Report.Records
import CMakeSense.Proofs.Text.Quoting
import CMakeSense.Proofs.Token.Walk

/-! The listing of a script's tokens loses nothing. The tokens of a line spell it
(`Scan.flatMap_tokenText_movesFrom`), their records say which line they are on, and texts in quotes
neither break a record nor are confused with each other. So each line can be read from the records
that carry its number (`Report.numberedText_tokens`); an empty line has none, and only empty lines
at the end of a script go unnoticed. -/

namespace CMakeSense

theorem Scan.flatMap_tokenText_movesFrom (s : State) (offset : Nat) (rest : Text) :
    (movesFrom s offset rest).flatMap (·.tokenText) = rest := by
  fun_induction movesFrom s offset rest with
  | case1 => rfl
  | case2 s offset c t lexeme ih =>
    rw [List.flatMap_cons, ih, Move.tokenText, Lexeme.length_token, List.take_append_drop]

namespace Walk

/-- The tokens on a line of a script spell it. -/
theorem flatMap_tokenText_stepsFrom (first : Nat) (s : State) (lines : List Text) (i : Nat) :
    ((stepsFrom first s lines).filter (·.line = first + i)).flatMap (·.tokenText) =
      lines.getD i [] := by
  induction lines generalizing first s i with
  | nil => rfl
  | cons line lines ih =>
    have onLine : ∀ step ∈ (Scan.moves s line).map (Step.ofMove first), step.line = first := by
      intro step h
      obtain ⟨move, _, rfl⟩ := List.mem_map.mp h
      rfl
    rw [stepsFrom, List.filter_append, List.flatMap_append]
    cases i with
    | zero =>
      have here : ((Scan.moves s line).map (Step.ofMove first)).filter (·.line = first + 0) =
          (Scan.moves s line).map (Step.ofMove first) :=
        List.filter_eq_self.mpr fun step h => decide_eq_true (onLine step h)
      have later : (stepsFrom (first + 1) (Scan.stateAfter s line) lines).filter
          (·.line = first + 0) = [] := by
        refine List.filter_eq_nil_iff.mpr fun step h => ?_
        have := (line_of_mem_stepsFrom h).1
        simp only [decide_eq_true_iff]
        omega
      rw [here, later, List.flatMap_nil, List.append_nil, List.flatMap_map]
      rw [Scan.moves_eq]
      exact Scan.flatMap_tokenText_movesFrom s 0 line
    | succ i =>
      have here : ((Scan.moves s line).map (Step.ofMove first)).filter
          (·.line = first + (i + 1)) = [] := by
        refine List.filter_eq_nil_iff.mpr fun step h => ?_
        simp only [onLine step h, decide_eq_true_iff]
        omega
      rw [here, List.flatMap_nil, List.nil_append, ← Nat.add_assoc, Nat.add_right_comm, ih]
      rfl

theorem steps_append_replicate (lines : List Text) (n : Nat) :
    steps (lines ++ List.replicate n []) = steps lines := by
  have blank (first : Nat) (s : State) : stepsFrom first s (List.replicate n []) = [] := by
    induction n generalizing first s with
    | zero => rfl
    | succ n ih =>
      rw [List.replicate_succ, stepsFrom, ih, Scan.moves_eq, Scan.movesFrom]
      rfl
  rw [steps, stepsFrom_append, blank, List.append_nil, steps]

end Walk

theorem Trigger.visible_of_mem_label {trigger : Trigger} {c : UInt8} (h : c ∈ trigger.label) :
    0x20 ≤ c := by
  have none : (utf8 "None").all (0x20 ≤ ·) = true := by decide
  have names : ∀ flag ∈ named, flag.2.all (0x20 ≤ ·) = true := by decide
  unfold label at h
  split at h
  · exact of_decide_eq_true (List.all_eq_true.mp none c h)
  · rcases Text.mem_join h with rfl | ⟨name, member, h⟩
    · decide
    · obtain ⟨flag, chosen, rfl⟩ := List.mem_map.mp member
      have visible := names flag (List.mem_filter.mp chosen).1
      exact of_decide_eq_true (List.all_eq_true.mp visible c h)

namespace Report

def tokenFields (step : Step) : List Text :=
  [Numeral.decimal (step.line + 1) ++ utf8 ":" ++ Numeral.decimal step.token.start ++
      utf8 "-" ++ Numeral.decimal step.token.stop,
    step.token.kind.label, step.tokenText.quoted, step.token.trigger.label]

/-- The number of the line that a record is about. -/
def recordNumber (fields : List Text) : Nat :=
  Numeral.value ((fields.headD []).takeWhile (· ≠ Ascii.colon))

/-- The texts in quotes of the records with a number, put together. -/
def numberedText (output : Text) (number : Nat) : Text :=
  ((readRecords output).filter (recordNumber · = number)).flatMap fun fields =>
    (fields.getD 2 []).unquoted

theorem IsField.append {a b : Text} (ha : IsField a) (hb : IsField b) : IsField (a ++ b) :=
  ⟨List.not_mem_append ha.1 hb.1, List.not_mem_append ha.2 hb.2⟩

theorem isField_tokenFields (step : Step) : ∀ field ∈ tokenFields step, IsField field := by
  have place : IsField (Numeral.decimal (step.line + 1) ++ utf8 ":" ++
      Numeral.decimal step.token.start ++ utf8 "-" ++ Numeral.decimal step.token.stop) :=
    ((((isField_decimal _).append (by decide)).append (isField_decimal _)).append
      (by decide)).append (isField_decimal _)
  have kind : IsField step.token.kind.label := by cases step.token.kind <;> decide
  have quoted : IsField step.tokenText.quoted :=
    isField_of_visible fun _ => Text.visible_of_mem_quoted
  have trigger : IsField step.token.trigger.label :=
    isField_of_visible fun _ => Trigger.visible_of_mem_label
  simp only [tokenFields, List.forall_mem_cons]
  exact ⟨place, kind, quoted, trigger, nofun⟩

theorem readRecords_tokens (steps : List Step) :
    readRecords (steps.flatMap tokenRecord) = steps.map tokenFields := by
  have records : steps.flatMap tokenRecord = (steps.map tokenFields).flatMap record := by
    rw [List.flatMap_map]
    rfl
  rw [records, readRecords_flatMap_record_iff]
  intro fields h
  obtain ⟨step, _, rfl⟩ := List.mem_map.mp h
  exact ⟨List.cons_ne_nil _ _, isField_tokenFields step⟩

theorem recordNumber_tokenFields (step : Step) :
    recordNumber (tokenFields step) = step.line + 1 := by
  have digits : ∀ c ∈ Numeral.decimal (step.line + 1), decide (c ≠ Ascii.colon) = true := by
    intro c h
    refine decide_eq_true fun colon => ?_
    subst colon
    exact absurd (Numeral.isDigit_of_mem_decimal h) (by decide)
  rw [recordNumber, tokenFields, List.headD_cons, List.append_assoc, List.append_assoc,
    List.append_assoc, List.takeWhile_append_of_pos digits]
  exact (congrArg Numeral.value (List.append_nil _)).trans (Numeral.value_decimal _)

theorem numberedText_tokens (lines : List Text) (i : Nat) :
    numberedText ((Walk.steps lines).flatMap tokenRecord) (i + 1) = lines.getD i [] := by
  have number (step : Step) : decide (recordNumber (tokenFields step) = i + 1) =
      decide (step.line = 0 + i) := by
    rw [decide_eq_decide, recordNumber_tokenFields]
    omega
  have text (step : Step) : ((tokenFields step).getD 2 []).unquoted = step.tokenText :=
    Text.unquoted_quoted _
  rw [numberedText, readRecords_tokens, List.filter_map, List.flatMap_map]
  simp only [Function.comp_def, number, text]
  exact Walk.flatMap_tokenText_stepsFrom 0 .start lines i

/-- Lists that agree wherever a missing line counts as empty differ in empty lines at their ends. -/
theorem exists_common_of_getD_eq {xs ys : List Text} (h : ∀ i, xs.getD i [] = ys.getD i []) :
    ∃ (common : List Text) (m n : Nat),
      xs = common ++ List.replicate m [] ∧ ys = common ++ List.replicate n [] := by
  have blank {zs : List Text} (empty : ∀ i, zs.getD i [] = []) :
      zs = List.replicate zs.length [] := by
    refine List.eq_replicate_iff.mpr ⟨rfl, fun line member => ?_⟩
    obtain ⟨i, within, rfl⟩ := List.getElem_of_mem member
    have none := empty i
    rwa [List.getD_eq_getElem?_getD, List.getElem?_eq_getElem within] at none
  induction xs generalizing ys with
  | nil => exact ⟨[], 0, ys.length, rfl, blank fun i => (h i).symm⟩
  | cons x xs ih =>
    cases ys with
    | nil => exact ⟨[], (x :: xs).length, 0, blank h, rfl⟩
    | cons y ys =>
      obtain ⟨common, m, n, rfl, rfl⟩ := ih fun i => h (i + 1)
      obtain rfl : x = y := h 0
      exact ⟨x :: common, m, n, rfl, rfl⟩

/-- **The listing of tokens is lossless.** Scripts have the same listing exactly when their lines
are the same but for empty lines at the end, and every line is spelled by the records that carry its
number. The command line prints this listing for any file with these lines. -/
theorem token_listing_lossless (xs ys : List Text) :
    ∃ output output', Report.lines (.tokens (Walk.steps xs)) = .ok output ∧
      Report.lines (.tokens (Walk.steps ys)) = .ok output' ∧
      (output = output' ↔ ∃ (common : List Text) (m n : Nat),
        xs = common ++ List.replicate m [] ∧ ys = common ++ List.replicate n []) ∧
      (∀ i, numberedText output (i + 1) = xs.getD i []) ∧
      ∀ (around : CommandLine.Surroundings) (values : CommandLine.FlagValues) (path content : Text),
        values.format = utf8 "line" → around.tree.readFile path = .ok content →
        Script.lines content = xs → CommandLine.tokens around values path = .ok output := by
  refine ⟨_, _, rfl, rfl, ⟨fun same => ?_, ?_⟩, numberedText_tokens xs, ?_⟩
  · refine exists_common_of_getD_eq fun i => ?_
    rw [← numberedText_tokens xs, ← numberedText_tokens ys, same]
  · rintro ⟨common, m, n, rfl, rfl⟩
    rw [Walk.steps_append_replicate, Walk.steps_append_replicate]
  · rintro around values path content format read rfl
    rw [CommandLine.tokens, read, CommandLine.format, format]
    rfl

/-- A string that goes on over an empty line and a tab, with empty lines behind it or without. -/
theorem token_listing_lossless_over_empty_line :
    let xs := [utf8 "set(A \"x", [], utf8 "\ty\")"]
    let around : CommandLine.Surroundings :=
      ⟨(FileTree.empty [utf8 "w"]).write (utf8 "x.cmake") (utf8 "set(A \"x\r\n\n\ty\")") 0, []⟩
    ∃ output, Report.lines (.tokens (Walk.steps xs)) = .ok output ∧
      Report.lines (.tokens (Walk.steps (xs ++ [[], []]))) = .ok output ∧
      numberedText output 2 = [] ∧ numberedText output 3 = utf8 "\ty\")" ∧
      CommandLine.tokens around {} (utf8 "x.cmake") = .ok output := by
  intro xs around
  obtain ⟨content, read, lines⟩ := exists_of_map_toOption
    (around.tree.readFile (utf8 "x.cmake")) Script.lines (b := xs) (by decide +kernel)
  obtain ⟨output, output', written, written', same, spelled, printed⟩ :=
    token_listing_lossless xs (xs ++ [[], []])
  obtain rfl : output = output' := same.mpr ⟨xs, 0, 2, (List.append_nil xs).symm, rfl⟩
  exact ⟨output, written, written', spelled 1, spelled 2,
    printed around {} (utf8 "x.cmake") content rfl read lines⟩

end Report

end CMakeSense
