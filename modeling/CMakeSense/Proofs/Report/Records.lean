import CMakeSense.CommandLine.Run
import CMakeSense.Proofs.Text.Numeral
import CMakeSense.Proofs.Text.Pieces

/-! Records read back. Output of records is cut at newlines and each line at tabs
(`Report.readRecords`). That gives back the records that were written if and only if no field holds
a tab or a newline (`Report.readRecords_flatMap_record_iff`). The names of a script are written as
they are, and a name in quotes can hold both. -/

namespace CMakeSense

namespace Report

/-- A text that neither ends a field nor a record. -/
def IsField (t : Text) : Prop := Ascii.tab ∉ t ∧ Ascii.newline ∉ t

instance (t : Text) : Decidable (IsField t) :=
  inferInstanceAs (Decidable (Ascii.tab ∉ t ∧ Ascii.newline ∉ t))

/-- The records of an output: what newlines end, cut at the tabs. -/
def readRecords (output : Text) : List (List Text) :=
  (Text.splitOn Ascii.newline output).dropLast.map (Text.splitOn Ascii.tab)

variable {output : Text} {fields : List Text} {records : List (List Text)}

theorem isField_of_mem_readRecords (h : fields ∈ readRecords output) :
    fields ≠ [] ∧ ∀ field ∈ fields, IsField field := by
  obtain ⟨line, member, rfl⟩ := List.mem_map.mp h
  refine ⟨Text.splitOn_ne_nil _ _, fun field cut => ⟨Text.notMem_of_mem_splitOn cut, ?_⟩⟩
  intro inField
  have inLine : Ascii.newline ∈ line := (Text.mem_of_mem_splitOn cut inField).1
  exact Text.notMem_of_mem_splitOn (List.dropLast_subset _ member) inLine

theorem readRecords_record_append (nonempty : fields ≠ []) (h : ∀ field ∈ fields, IsField field)
    (rest : Text) : readRecords (record fields ++ rest) = fields :: readRecords rest := by
  obtain ⟨first, others, rfl⟩ := List.exists_cons_of_ne_nil nonempty
  have newline : Ascii.newline ∉ Text.join [Ascii.tab] (first :: others) := by
    intro inside
    rcases Text.mem_join inside with eq | ⟨field, member, inside⟩
    · cases eq
    · exact (h field member).2 inside
  rw [readRecords, record, List.append_assoc, List.singleton_append,
    Text.splitOn_append_cons newline, List.dropLast_cons_of_ne_nil (Text.splitOn_ne_nil _ _),
    List.map_cons, Text.splitOn_join_of_notMem fun field member => (h field member).1]
  rfl

/-- Exactly the records whose fields hold neither tabs nor newlines are read back. -/
theorem readRecords_flatMap_record_iff : readRecords (records.flatMap record) = records ↔
    ∀ fields ∈ records, fields ≠ [] ∧ ∀ field ∈ fields, IsField field := by
  constructor
  · -- Whatever is read has been cut at both separators.
    intro same fields member
    rw [← same] at member
    exact isField_of_mem_readRecords member
  · intro h
    induction records with
    | nil => rfl
    | cons fields records ih =>
      obtain ⟨nonempty, isField⟩ := h fields List.mem_cons_self
      rw [List.flatMap_cons, readRecords_record_append nonempty isField,
        ih fun other member => h other (List.mem_cons_of_mem _ member)]

theorem isField_of_visible {t : Text} (h : ∀ c ∈ t, 0x20 ≤ c) : IsField t :=
  ⟨fun inside => absurd (h _ inside) (by decide), fun inside => absurd (h _ inside) (by decide)⟩

theorem isField_decimal (n : Nat) : IsField (Numeral.decimal n) := by
  refine isField_of_visible fun c member => ?_
  have digit := Numeral.isDigit_of_mem_decimal member
  rw [Ascii.isDigit, Bool.and_eq_true, decide_eq_true_iff] at digit
  exact UInt8.le_trans (by decide) digit.1

theorem isField_decimalInt (n : Int) : IsField (Numeral.decimalInt n) := by
  cases n with
  | ofNat n => exact isField_decimal n
  | negSucc n =>
    obtain ⟨tab, newline⟩ := isField_decimal (n + 1)
    exact ⟨List.not_mem_cons_of_ne_of_not_mem (by decide) tab,
      List.not_mem_cons_of_ne_of_not_mem (by decide) newline⟩

/-- The fields of the records of a script: the kind and the name of what it defines, the kind, the
name and the line of what it refers to, and the names that lead to files with their paths. -/
def symbolFields (symbols : ScriptSymbols) : List (List Text) :=
  let group (kind : String) (names : List Text) := names.map fun name => [utf8 kind, name]
  group "variable" symbols.normalVariables ++ group "env" symbols.envVariables ++
    group "cache" symbols.cacheVariables ++ group "function" symbols.functions ++
    group "macro" symbols.macros ++ group "target" symbols.targets ++ group "test" symbols.tests ++
    (symbols.includes.map fun reference =>
      [utf8 (if reference.isPackage then "package" else "include"), reference.name,
        Numeral.decimalInt (reference.line + 1)]) ++
    (sortedResolutions symbols.resolved).map fun (name, path) => [utf8 "resolved", name, path]

def symbolTexts (symbols : ScriptSymbols) : List Text :=
  symbols.normalVariables ++ symbols.envVariables ++ symbols.cacheVariables ++ symbols.functions ++
    symbols.macros ++ symbols.targets ++ symbols.tests ++ symbols.includes.map (·.name) ++
    symbols.resolved.flatMap fun (name, path) => [name, path]

theorem symbolRecords_eq_flatMap (symbols : ScriptSymbols) :
    symbolRecords symbols = (symbolFields symbols).flatMap record := by
  have references : includeRecord = fun reference => record
      [utf8 (if reference.isPackage then "package" else "include"), reference.name,
        Numeral.decimalInt (reference.line + 1)] := by
    funext reference
    rw [includeRecord, apply_ite utf8]
  simp [symbolRecords, symbolGroups, symbolFields, List.flatMap_map, references]

theorem isField_symbolFields_iff (symbols : ScriptSymbols) :
    (∀ fields ∈ symbolFields symbols, fields ≠ [] ∧ ∀ field ∈ fields, IsField field) ↔
      ∀ t ∈ symbolTexts symbols, IsField t := by
  have kinds : ∀ kind ∈ ["variable", "env", "cache", "function", "macro", "target", "test",
      "resolved"], IsField (utf8 kind) := by
    decide
  have reference (isPackage : Bool) :
      IsField (utf8 (if isPackage then "package" else "include")) := by
    cases isPackage <;> decide
  simp only [List.forall_mem_cons, List.not_mem_nil, false_imp_iff, implies_true, and_true] at kinds
  simp only [symbolFields, symbolTexts, List.forall_mem_append, List.forall_mem_map,
    List.forall_mem_flatMap, List.forall_mem_cons, sortedResolutions, List.mem_mergeSort, kinds,
    reference, isField_decimalInt, ne_eq, reduceCtorEq, not_false_eq_true, List.not_mem_nil,
    false_imp_iff, implies_true, and_true, true_and]

theorem symbols_of_load {around : CommandLine.Surroundings} {values : CommandLine.FlagValues}
    {decode : Settings.Decoder} {path : Text} {workspace : Workspace} {buffer : Buffer}
    (line : values.format = utf8 "line")
    (loaded : CommandLine.load around values path decode = .ok (workspace, buffer)) :
    CommandLine.symbols around values path decode =
      .ok (symbolRecords (ScriptSymbols.ofBuffer around.tree buffer)) := by
  have format : CommandLine.format values = .ok .line := by
    rw [CommandLine.format, line]
    rfl
  rw [CommandLine.symbols, loaded, format]
  rfl

/-- **The records of a script are read back exactly when no name or path in them holds a tab or a
newline.** How the settings around it are decoded does not matter. -/
theorem symbols_read_back_iff {around : CommandLine.Surroundings} {values : CommandLine.FlagValues}
    {decode : Settings.Decoder} {path : Text} {workspace : Workspace} {buffer : Buffer}
    (line : values.format = utf8 "line")
    (loaded : CommandLine.load around values path decode = .ok (workspace, buffer)) :
    let symbols := ScriptSymbols.ofBuffer around.tree buffer
    ∃ output, CommandLine.symbols around values path decode = .ok output ∧
      (readRecords output = symbolFields symbols ↔ ∀ t ∈ symbolTexts symbols, IsField t) := by
  intro symbols
  refine ⟨_, symbols_of_load line loaded, ?_⟩
  rw [symbolRecords_eq_flatMap, readRecords_flatMap_record_iff]
  exact isField_symbolFields_iff symbols

theorem exists_of_map_toOption {ε α β : Type} (result : Except ε α) (f : α → β) {b : β}
    (h : result.toOption.map f = some b) : ∃ a, result = .ok a ∧ f a = b := by
  cases result with
  | error => cases h
  | ok a => exact ⟨a, rfl, Option.some.inj h⟩

/-- A name with a space is read back, and so is a reference with its file. -/
theorem symbols_read_back_of_spaced_name :
    let around : CommandLine.Surroundings :=
      ⟨((FileTree.empty [utf8 "w"]).write (utf8 "m.cmake") [] 0).write (utf8 "x.cmake")
        (utf8 "add_library(\"a b\" x.c)\ninclude(m)\n") 0, []⟩
    let records := [[utf8 "target", utf8 "a b"], [utf8 "include", utf8 "m", utf8 "2"],
      [utf8 "resolved", utf8 "m", utf8 "/w/m.cmake"]]
    ∃ workspace buffer output,
      CommandLine.load around {} (utf8 "x.cmake") = .ok (workspace, buffer) ∧
      symbolFields (ScriptSymbols.ofBuffer around.tree buffer) = records ∧
      CommandLine.symbols around {} (utf8 "x.cmake") = .ok output ∧
      readRecords output = records := by
  intro around records
  obtain ⟨⟨workspace, buffer⟩, loaded, fields⟩ := exists_of_map_toOption
    (CommandLine.load around {} (utf8 "x.cmake"))
    (fun found => symbolFields (ScriptSymbols.ofBuffer around.tree found.2)) (b := records)
    (by decide +kernel)
  obtain ⟨output, written, iff⟩ := symbols_read_back_iff rfl loaded
  have plain : ∀ t ∈ symbolTexts (ScriptSymbols.ofBuffer around.tree buffer), IsField t := by
    rw [← isField_symbolFields_iff, fields]
    decide
  exact ⟨workspace, buffer, output, loaded, fields, written, (iff.mpr plain).trans fields⟩

/-- A name that goes on over a line end is written as two lines. -/
theorem symbols_not_read_back :
    let around : CommandLine.Surroundings :=
      ⟨(FileTree.empty [utf8 "w"]).write (utf8 "x.cmake")
        (utf8 "add_library(\"a\nb\" x.c)\n") 0, []⟩
    ∃ workspace buffer output,
      CommandLine.load around {} (utf8 "x.cmake") = .ok (workspace, buffer) ∧
      symbolFields (ScriptSymbols.ofBuffer around.tree buffer) = [[utf8 "target", utf8 "a\nb"]] ∧
      CommandLine.symbols around {} (utf8 "x.cmake") = .ok output ∧
      readRecords output = [[utf8 "target", utf8 "a"], [utf8 "b"]] ∧
      readRecords output ≠ symbolFields (ScriptSymbols.ofBuffer around.tree buffer) := by
  intro around
  obtain ⟨⟨workspace, buffer⟩, loaded, fields⟩ := exists_of_map_toOption
    (CommandLine.load around {} (utf8 "x.cmake"))
    (fun found => symbolFields (ScriptSymbols.ofBuffer around.tree found.2))
    (b := [[utf8 "target", utf8 "a\nb"]]) (by decide +kernel)
  obtain ⟨output, written, read⟩ := exists_of_map_toOption
    (CommandLine.symbols around {} (utf8 "x.cmake")) readRecords
    (b := [[utf8 "target", utf8 "a"], [utf8 "b"]]) (by decide +kernel)
  refine ⟨workspace, buffer, output, loaded, fields, written, read, ?_⟩
  rw [read, fields]
  decide

end Report

end CMakeSense
