import CMakeSense.Proofs.Script.Spelling
import CMakeSense.Proofs.Text.Folding
import CMakeSense.Proofs.Text.Pieces
import CMakeSense.Proofs.Workspace.Inclusion

/-! Functions of included files. A cache records the names that a file defines, each once in
whatever letter case, and asks a file for the parameters of a function only if the name is among
them. In ASCII scripts the record leaves out nothing that the file itself would answer: a definition
that is not recorded has the same letters as one that is (`Script.exists_mem_definedBy_iff`). -/

namespace CMakeSense

namespace Script

/-- The lines of an ASCII text are ASCII texts. -/
theorem isAscii_of_mem_lines {content line : Text} (h : content.IsAscii)
    (member : line ∈ lines content) : line.IsAscii := by
  obtain ⟨piece, cut, rfl⟩ := List.mem_map.mp member
  intro c hc
  refine h c (Text.mem_of_mem_splitOn cut ?_).1
  rw [Text.trimSuffix, Text.dropSuffix?] at hc
  split at hc
  · exact List.mem_of_mem_take hc
  · exact hc

/-- A statement defines a function or macro of a name, in any letter case. -/
theorem isSome_definition?_iff {name : Text} {statement : Statement} :
    (definition? name statement).isSome = true ↔
      (statement.command = some .functionDefinition ∨
        statement.command = some .macroDefinition) ∧
      ∃ defined ∈ statement.arguments.head?, defined.equalFold name = true := by
  unfold definition?
  split
  · next defines =>
    have defines : statement.command = some .functionDefinition ∨
        statement.command = some .macroDefinition := by simpa using defines
    cases arguments : statement.arguments with
    | nil => simp
    | cons defined parameters =>
      cases same : defined.equalFold name <;> simp [defines, same]
  · next other =>
    have other : ¬(statement.command = some .functionDefinition ∨
        statement.command = some .macroDefinition) := by simpa using other
    simp [other]

variable {lines : List Text} (ascii : ∀ line ∈ lines, line.IsAscii)
include ascii

/-- A name is recorded, in some letter case, exactly when a statement defines it. -/
theorem exists_mem_definedBy_iff (command : Command) (name : Text) :
    (∃ defined ∈ definedBy command lines, defined.equalFold name = true) ↔
      ∃ statement ∈ statements lines, statement.command = some command ∧
        ∃ defined ∈ statement.arguments.head?, defined.equalFold name = true := by
  have named {defined : Text} : defined ∈ (statements lines).filterMap (fun statement =>
      if statement.command = some command then statement.arguments.head? else none) ↔
      ∃ statement ∈ statements lines, statement.command = some command ∧
        defined ∈ statement.arguments.head? := by
    rw [List.mem_filterMap]
    refine exists_congr fun statement => and_congr_right fun _ => ?_
    split <;> simp_all
  have spelled {defined : Text} {statement : Statement} (member : statement ∈ statements lines)
      (first : defined ∈ statement.arguments.head?) : defined.IsAscii :=
    spelled_arguments (by decide) ascii member defined (List.mem_of_mem_head? first)
  constructor
  · rintro ⟨defined, recorded, same⟩
    obtain ⟨statement, member, made, first⟩ := named.mp (Text.mem_of_mem_distinctBy recorded)
    exact ⟨statement, member, made, defined, first, same⟩
  · rintro ⟨statement, member, made, defined, first, same⟩
    -- The name that is recorded for this one agrees with it in lower case, so also up to case.
    obtain ⟨other, recorded, lower⟩ :=
      Text.exists_mem_distinctBy Text.toLower (named.mpr ⟨statement, member, made, first⟩)
    obtain ⟨_, member', _, first'⟩ := named.mp (Text.mem_of_mem_distinctBy recorded)
    refine ⟨other, recorded, ?_⟩
    rw [(spelled member' first').equalFold_eq_of_toLower_eq (spelled member first) lower]
    exact same

/-- A function or macro has parameters exactly when its name is recorded. -/
theorem isSome_functionParameters?_iff (name : Text) :
    (functionParameters? lines name).isSome = true ↔
      ∃ defined, (defined ∈ functions lines ∨ defined ∈ macros lines) ∧
        defined.equalFold name = true := by
  rw [functionParameters?, List.findSome?_isSome_iff]
  simp only [isSome_definition?_iff, or_and_right, and_or_left, exists_or]
  rw [functions, macros, ← exists_mem_definedBy_iff ascii, ← exists_mem_definedBy_iff ascii]

end Script

namespace IncludeCache

/-- An ASCII file is said to define the functions and macros that it has parameters for. -/
theorem Entry.defines_ofContent {content : Text} (ascii : content.IsAscii) (path name : Text) :
    (ofContent path content).defines name =
      (Script.functionParameters? (Script.lines content) name).isSome := by
  rw [Bool.eq_iff_iff,
    Script.isSome_functionParameters?_iff fun _ => Script.isAscii_of_mem_lines ascii]
  simp [defines, ofContent, or_and_right, exists_or]

/-- Asking only the files that are said to define a name is asking all of them. -/
theorem exists_contents {now : FileTree} {entries : List Entry}
    (read : ∀ entry ∈ entries, ∃ content, now.readFile entry.path = .ok content ∧
      content.IsAscii ∧ entry = .ofContent entry.path content) (name : Text) :
    ∃ contents, List.Forall₂ (fun entry content => now.readFile entry.path = .ok content)
        entries contents ∧
      (entries.findSome? fun entry => if entry.defines name then
        (now.readFile entry.path).toOption.bind fun content =>
          Script.functionParameters? (Script.lines content) name else none) =
        contents.findSome? fun content =>
          Script.functionParameters? (Script.lines content) name := by
  induction entries with
  | nil => exact ⟨[], .nil, rfl⟩
  | cons entry entries ih =>
    obtain ⟨contents, same, search⟩ := ih fun other h => read other (List.mem_cons_of_mem entry h)
    obtain ⟨content, here, ascii, made⟩ := read entry List.mem_cons_self
    refine ⟨content :: contents, .cons here same, ?_⟩
    have defines := Entry.defines_ofContent ascii entry.path name
    rw [← made] at defines
    rw [List.findSome?_cons, List.findSome?_cons, here, search, defines]
    cases found : Script.functionParameters? (Script.lines content) name with
    | none => rfl
    | some parameters => simp [Except.toOption, found]

/-- **A function is looked up by the recorded names as by searching the files.** Where the files of
a cache are ASCII and have not changed since the cache was rebuilt, the parameters of any name are
those that the first file gives that has any, and there are none exactly when no file has. In any
ASCII script a name has parameters exactly when it is recorded as a function or macro, in whatever
letter case. -/
theorem lookup_agrees_search :
    (∀ (cache : IncludeCache) (tree now : FileTree) (path : Text) (includes : List Include),
      let built := cache.rebuild tree path includes
      (∀ file ∈ built.paths, now.readFile file = tree.readFile file) →
      (∀ file ∈ built.paths, ∀ content, now.readFile file = .ok content → content.IsAscii) →
      ∀ name, ∃ contents, List.Forall₂
          (fun entry content => now.readFile entry.path = .ok content) built.entries contents ∧
        built.parameters? now name = contents.findSome? fun content =>
          Script.functionParameters? (Script.lines content) name) ∧
    ∀ lines : List Text, (∀ line ∈ lines, line.IsAscii) → ∀ name,
      (Script.functionParameters? lines name).isSome = true ↔
        ∃ defined, (defined ∈ Script.functions lines ∨ defined ∈ Script.macros lines) ∧
          defined.equalFold name = true := by
  refine ⟨fun cache tree now path includes => ?_, fun lines ascii name => ?_⟩
  · intro built unchanged ascii name
    refine exists_contents (fun entry member => ?_) name
    have listed : entry.path ∈ built.paths := List.mem_map_of_mem member
    obtain ⟨_, content, read, made⟩ := of_mem_entries_rebuild member
    rw [← unchanged _ listed] at read
    exact ⟨content, read, ascii _ listed content read, made⟩
  · exact Script.isSome_functionParameters?_iff ascii name

/-- Two files, of which the second defines the function three times in different letter case and the
first does not, and a file that has come to stand beside them since. -/
theorem lookup_agrees_search_in_any_case :
    let tree := ((FileTree.empty []).write (utf8 "/d/a.cmake") (utf8 "macro(bar x)") 1).write
      (utf8 "/d/b.cmake") (utf8 "function(Foo a b)\nmacro(foo c)\nfunction(FOO d)") 1
    let now := tree.write (utf8 "/d/c.cmake") (utf8 "function(foo)") 2
    let built := (IncludeCache.new []).rebuild tree (utf8 "/d/x")
      [⟨utf8 "a", 0, false⟩, ⟨utf8 "b", 1, false⟩]
    (∃ contents, List.Forall₂ (fun entry content => now.readFile entry.path = .ok content)
        built.entries contents ∧
      built.parameters? now (utf8 "fOO") = contents.findSome? fun content =>
        Script.functionParameters? (Script.lines content) (utf8 "fOO")) ∧
    built.parameters? now (utf8 "fOO") = some [utf8 "a", utf8 "b"] ∧
    ((Script.functionParameters? [utf8 "macro(bar x)"] (utf8 "BAR")).isSome = true ↔
      ∃ defined, (defined ∈ Script.functions [utf8 "macro(bar x)"] ∨
        defined ∈ Script.macros [utf8 "macro(bar x)"]) ∧
          defined.equalFold (utf8 "BAR") = true) := by
  intro tree now built
  have all : ∀ file ∈ built.paths, (now.readFile file).toOption.isSome = true ∧
      (now.readFile file).toOption = (tree.readFile file).toOption ∧
      ∀ content ∈ (now.readFile file).toOption, content.IsAscii := by decide +kernel
  have unchanged : ∀ file ∈ built.paths, now.readFile file = tree.readFile file := by
    intro file member
    obtain ⟨readable, same, _⟩ := all file member
    cases left : now.readFile file <;> cases right : tree.readFile file <;>
      simp_all [Except.toOption]
  have ascii : ∀ file ∈ built.paths, ∀ content, now.readFile file = .ok content →
      content.IsAscii := by
    intro file member content read
    exact (all file member).2.2 content (by rw [read]; rfl)
  exact ⟨lookup_agrees_search.1 (.new []) tree now _ _ unchanged ascii _, by decide +kernel,
    lookup_agrees_search.2 _ (by decide +kernel) _⟩

end IncludeCache

end CMakeSense
