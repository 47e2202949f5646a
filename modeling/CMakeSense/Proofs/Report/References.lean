import CMakeSense.Proofs.Report.Records
import CMakeSense.Proofs.Workspace.Buffers
import Mathlib.Data.List.Nodup

/-! The files that the references of a script lead to, as its report lists them. The report keeps
one file for each name: a reference that leads to a file takes the place of an earlier one of the
same name (`ScriptSymbols.mem_note`), so what stands under a name is where the last such reference
leads (`ScriptSymbols.mem_resolutions`). References of one name and one kind lead to the same file,
but a file that is included and a package may have the same name and lead to different ones. Then
the earlier reference loses its file in the report. -/

namespace CMakeSense

namespace ScriptSymbols

/-- The file that a reference of a buffer leads to. -/
def leadsTo? (tree : FileTree) (buffer : Buffer) (reference : Include) : Option Text :=
  buffer.cache.resolve? tree (Path.dir buffer.path) reference

/-- Notes the file that one reference leads to, if it leads to one. -/
def note (tree : FileTree) (buffer : Buffer) (resolved : List (Text × Text))
    (reference : Include) : List (Text × Text) :=
  match leadsTo? tree buffer reference with
  | some file => putResolution resolved reference.name file
  | none => resolved

/-- The file that a reference leads to, if it has the given name. -/
def fileUnder? (tree : FileTree) (buffer : Buffer) (name : Text) (reference : Include) :
    Option Text :=
  if reference.name = name then leadsTo? tree buffer reference else none

variable {tree : FileTree} {buffer : Buffer} {resolved : List (Text × Text)} {name file : Text}
  {reference : Include} {references : List Include}

theorem fileUnder?_eq_some_iff : fileUnder? tree buffer name reference = some file ↔
    reference.name = name ∧ leadsTo? tree buffer reference = some file := by
  rw [fileUnder?, Option.ite_none_right_eq_some]

theorem resolutions_eq_foldl (tree : FileTree) (buffer : Buffer) :
    resolutions tree buffer = buffer.includes.foldl (note tree buffer) [] := rfl

theorem mem_putResolution {key value : Text} :
    (key, value) ∈ putResolution resolved name file ↔
      key = name ∧ value = file ∨ key ≠ name ∧ (key, value) ∈ resolved := by
  simp only [putResolution, List.mem_append, List.mem_filter, List.mem_singleton,
    Prod.mk.injEq, decide_eq_true_eq]
  tauto

theorem nodup_putResolution (distinct : (resolved.map (·.1)).Nodup) (name file : Text) :
    ((putResolution resolved name file).map (·.1)).Nodup := by
  rw [putResolution, List.map_append, List.map_singleton, List.nodup_append]
  refine ⟨(List.filter_sublist.map _).nodup distinct, List.nodup_singleton _, ?_⟩
  intro key earlier other last same
  obtain ⟨entry, kept, rfl⟩ := List.mem_map.mp earlier
  have differs := (List.mem_filter.mp kept).2
  rw [List.mem_singleton.mp last] at same
  exact absurd same (of_decide_eq_true differs)

/-- A reference that leads to a file takes its name in the table, and leaves the other names. -/
theorem mem_note :
    (name, file) ∈ note tree buffer resolved reference ↔
      fileUnder? tree buffer name reference = some file ∨
        fileUnder? tree buffer name reference = none ∧ (name, file) ∈ resolved := by
  unfold note fileUnder?
  cases leadsTo? tree buffer reference with
  | none => simp
  | some other =>
    rw [mem_putResolution]
    by_cases same : reference.name = name
    · simp [same, eq_comm]
    · simp [same, Ne.symm same]

theorem nodup_note (distinct : (resolved.map (·.1)).Nodup) (reference : Include) :
    ((note tree buffer resolved reference).map (·.1)).Nodup := by
  unfold note
  cases leadsTo? tree buffer reference with
  | none => exact distinct
  | some file => exact nodup_putResolution distinct reference.name file

/-- Under a name stands the file that the last reference of the name leads to. -/
theorem mem_foldl_note :
    (name, file) ∈ references.foldl (note tree buffer) resolved ↔
      (references.filterMap (fileUnder? tree buffer name)).getLast? = some file ∨
        references.filterMap (fileUnder? tree buffer name) = [] ∧ (name, file) ∈ resolved := by
  induction references generalizing resolved with
  | nil => simp
  | cons reference references ih =>
    rw [List.foldl_cons, ih, mem_note]
    cases found : fileUnder? tree buffer name reference with
    | none => simp [List.filterMap_cons_none found]
    | some here =>
      rw [List.filterMap_cons_some found, List.getLast?_cons]
      cases later : references.filterMap (fileUnder? tree buffer name) with
      | nil => simp
      | cons next files => simp [List.getLast?_cons]

theorem nodup_foldl_note (distinct : (resolved.map (·.1)).Nodup) (references : List Include) :
    ((references.foldl (note tree buffer) resolved).map (·.1)).Nodup := by
  induction references generalizing resolved with
  | nil => exact distinct
  | cons reference references ih => exact ih (nodup_note distinct reference)

theorem mem_resolutions :
    (name, file) ∈ resolutions tree buffer ↔
      (buffer.includes.filterMap (fileUnder? tree buffer name)).getLast? = some file := by
  rw [resolutions_eq_foldl, mem_foldl_note]
  simp

theorem nodup_resolutions (tree : FileTree) (buffer : Buffer) :
    ((resolutions tree buffer).map (·.1)).Nodup := by
  rw [resolutions_eq_foldl]
  apply nodup_foldl_note
  exact List.nodup_nil

/-- A reference that leads to a file leaves one under its name: its own, or that of a later
reference. -/
theorem exists_mem_resolutions (member : reference ∈ buffer.includes)
    (found : leadsTo? tree buffer reference = some file) :
    ∃ other ∈ buffer.includes, other.name = reference.name ∧ ∃ last,
      leadsTo? tree buffer other = some last ∧
      (reference.name, last) ∈ resolutions tree buffer := by
  have under : file ∈ buffer.includes.filterMap (fileUnder? tree buffer reference.name) :=
    List.mem_filterMap.mpr ⟨reference, member, (if_pos rfl).trans found⟩
  obtain ⟨last, hlast⟩ := Option.isSome_iff_exists.mp
    (List.getLast?_isSome.mpr (List.ne_nil_of_mem under))
  obtain ⟨other, member', under'⟩ := List.mem_filterMap.mp (List.mem_of_getLast? hlast)
  obtain ⟨same, found'⟩ := fileUnder?_eq_some_iff.mp under'
  exact ⟨other, member', same, last, found', mem_resolutions.mpr hlast⟩

/-- The names in the table are those of references that lead to files. -/
theorem mem_names_resolutions :
    name ∈ (resolutions tree buffer).map (·.1) ↔
      ∃ reference ∈ buffer.includes, reference.name = name ∧
        (leadsTo? tree buffer reference).isSome = true := by
  constructor
  · intro listed
    obtain ⟨⟨_, file⟩, entry, rfl⟩ := List.mem_map.mp listed
    have last := List.mem_of_getLast? (mem_resolutions.mp entry)
    obtain ⟨reference, member, under⟩ := List.mem_filterMap.mp last
    obtain ⟨same, found⟩ := fileUnder?_eq_some_iff.mp under
    exact ⟨reference, member, same, by rw [found]; rfl⟩
  · rintro ⟨reference, member, rfl, found⟩
    obtain ⟨file, found⟩ := Option.isSome_iff_exists.mp found
    obtain ⟨_, _, _, last, _, listed⟩ := exists_mem_resolutions member found
    exact List.mem_map.mpr ⟨(reference.name, last), listed, rfl⟩

/-- References of one name and one kind lead to the same file. -/
theorem leadsTo?_of_key_eq {a b : Include} (same : a.key = b.key) :
    leadsTo? tree buffer a = leadsTo? tree buffer b := by
  rw [leadsTo?, leadsTo?, IncludeCache.resolve?, IncludeCache.resolve?,
    (Include.resolve?_of_key_eq same).1]

/-- No name stands for a file that is included and for a package that lead to different files. -/
def NamesApart (tree : FileTree) (buffer : Buffer) : Prop :=
  ∀ included ∈ buffer.includes, ∀ package ∈ buffer.includes,
    included.isPackage = false → package.isPackage = true → included.name = package.name →
    ∀ file other, leadsTo? tree buffer included = some file →
      leadsTo? tree buffer package = some other → file = other

/-- Where names are apart, all references of a name that lead to files lead to the same one. -/
theorem NamesApart.eq (apart : NamesApart tree buffer) {a b : Include} {other : Text}
    (ha : a ∈ buffer.includes) (hb : b ∈ buffer.includes) (same : a.name = b.name)
    (file_a : leadsTo? tree buffer a = some file) (file_b : leadsTo? tree buffer b = some other) :
    file = other := by
  have of_kind (kinds : a.isPackage = b.isPackage) : file = other := by
    rw [leadsTo?_of_key_eq (Prod.ext same kinds), file_b] at file_a
    exact (Option.some.inj file_a).symm
  cases kind_a : a.isPackage with
  | false =>
    cases kind_b : b.isPackage with
    | false => exact of_kind (kind_a.trans kind_b.symm)
    | true => exact apart a ha b hb kind_a kind_b same file other file_a file_b
  | true =>
    cases kind_b : b.isPackage with
    | false => exact (apart b hb a ha kind_b kind_a same.symm other file file_b file_a).symm
    | true => exact of_kind (kind_a.trans kind_b.symm)

/-- Every reference that leads to a file has it under its name exactly where names are apart. -/
theorem forall_mem_resolutions_iff :
    (∀ reference ∈ buffer.includes, ∀ file, leadsTo? tree buffer reference = some file →
      (reference.name, file) ∈ resolutions tree buffer) ↔ NamesApart tree buffer := by
  constructor
  · intro kept included hincluded package hpackage _ _ same file other hfile hother
    -- One name has one file.
    have first := mem_resolutions.mp (kept included hincluded file hfile)
    have second := mem_resolutions.mp (kept package hpackage other hother)
    rw [same] at first
    exact Option.some.inj (first.symm.trans second)
  · intro apart reference member file found
    obtain ⟨other, member', same, last, found', listed⟩ := exists_mem_resolutions member found
    rwa [apart.eq member member' same.symm found found']

end ScriptSymbols

namespace CommandLine

variable {around : Surroundings} {values : FlagValues} {decode : Settings.Decoder} {path : Text}
  {workspace : Workspace} {buffer : Buffer}

theorem eq_ok_of_mapError {ε ε' α : Type} {f : ε → ε'} {result : Except ε α} {a : α}
    (h : result.mapError f = .ok a) : result = .ok a := by
  cases result with
  | error => cases h
  | ok => exact congrArg Except.ok (Except.ok.inj h)

/-- A script that is loaded is the file at its path, read for what it refers to. -/
theorem buffer_of_load (loaded : load around values path decode = .ok (workspace, buffer)) :
    buffer.path = Path.absolute around.tree.workingPath path ∧
      around.tree.readFile buffer.path = .ok buffer.content ∧
      buffer.includes = Script.includes (Script.lines buffer.content) := by
  unfold load at loaded
  simp only [bind, Except.bind] at loaded
  split at loaded
  · cases loaded
  split at loaded
  · cases loaded
  next content read =>
  split at loaded
  · next found =>
    cases loaded
    have contents : ∃ cache, buffer =
        Workspace.contentBuffer (Path.absolute around.tree.workingPath path) content cache := by
      obtain ⟨_, old, _, same, _⟩ | ⟨_, cache, same, _⟩ :=
        Workspace.buffer?_update_self around.tree found
      · exact ⟨_, same⟩
      · exact ⟨_, same⟩
    obtain ⟨cache, rfl⟩ := contents
    exact ⟨rfl, eq_ok_of_mapError read, rfl⟩
  · cases loaded

/-- **The report of a script keeps the file of every reference exactly where names are apart.** The
report lists one file for each name that leads to one, and no other names. It is the file that every
reference of the name leads to if and only if no name stands both for a file that is included and
for a package, and leads to different files as the one and as the other. -/
theorem references_keep_files_iff {format : Report.Format}
    (loaded : load around values path decode = .ok (workspace, buffer))
    (chosen : CommandLine.format values = .ok format) :
    let table := ScriptSymbols.ofBuffer around.tree buffer
    let leadsTo? := ScriptSymbols.leadsTo? around.tree buffer
    symbols around values path decode = write format (.symbols table) ∧
    around.tree.readFile (Path.absolute around.tree.workingPath path) = .ok buffer.content ∧
    table.includes = Script.includes (Script.lines buffer.content) ∧
    (table.resolved.map (·.1)).Nodup ∧
    (∀ name, name ∈ table.resolved.map (·.1) ↔ ∃ reference ∈ table.includes,
      reference.name = name ∧ (leadsTo? reference).isSome = true) ∧
    ((∀ reference ∈ table.includes, ∀ file, leadsTo? reference = some file →
        (reference.name, file) ∈ table.resolved) ↔
      ∀ included ∈ table.includes, ∀ package ∈ table.includes, included.isPackage = false →
        package.isPackage = true → included.name = package.name →
        ∀ file other, leadsTo? included = some file → leadsTo? package = some other →
          file = other) := by
  intro table leadsTo?
  obtain ⟨place, read, includes⟩ := buffer_of_load loaded
  refine ⟨?_, place ▸ read, includes, ScriptSymbols.nodup_resolutions .., ?_, ?_⟩
  · rw [symbols, loaded, chosen]
    rfl
  · intro name
    exact ScriptSymbols.mem_names_resolutions
  · exact ScriptSymbols.forall_mem_resolutions_iff

/-- The references of a buffer with the files that they lead to, where the list of them is known. -/
theorem leadsTo?_iff_of_map_eq {tree : FileTree} {pairs : List (Include × Option Text)}
    (known : buffer.includes.map (fun reference =>
      (reference, ScriptSymbols.leadsTo? tree buffer reference)) = pairs)
    {reference : Include} {file? : Option Text} :
    reference ∈ buffer.includes ∧ ScriptSymbols.leadsTo? tree buffer reference = file? ↔
      (reference, file?) ∈ pairs := by
  rw [← known, List.mem_map]
  constructor
  · rintro ⟨member, rfl⟩
    exact ⟨reference, member, rfl⟩
  · rintro ⟨other, member, same⟩
    cases same
    exact ⟨member, rfl⟩

/-- A file that is included twice and a package of another name. -/
theorem references_keep_files_of_two_names :
    let script := utf8 "include(m)\nfind_package(p)\ninclude(m)\n"
    let tree := (((FileTree.empty [utf8 "w"]).write (utf8 "m.cmake") [] 0).write
      (utf8 "Findp.cmake") [] 0).write (utf8 "x.cmake") script 0
    ∃ workspace buffer, load ⟨tree, []⟩ {} (utf8 "x.cmake") = .ok (workspace, buffer) ∧
      (ScriptSymbols.ofBuffer tree buffer).includes =
        [⟨utf8 "m", 0, false⟩, ⟨utf8 "p", 1, true⟩, ⟨utf8 "m", 2, false⟩] ∧
      (utf8 "m", utf8 "/w/m.cmake") ∈ (ScriptSymbols.ofBuffer tree buffer).resolved ∧
      (utf8 "p", utf8 "/w/Findp.cmake") ∈ (ScriptSymbols.ofBuffer tree buffer).resolved := by
  intro script tree
  obtain ⟨⟨workspace, buffer⟩, loaded, known⟩ := Report.exists_of_map_toOption
    (load ⟨tree, []⟩ {} (utf8 "x.cmake"))
    (fun loaded => loaded.2.includes.map fun reference =>
      (reference, ScriptSymbols.leadsTo? tree loaded.2 reference))
    (b := [(⟨utf8 "m", 0, false⟩, some (utf8 "/w/m.cmake")),
      (⟨utf8 "p", 1, true⟩, some (utf8 "/w/Findp.cmake")),
      (⟨utf8 "m", 2, false⟩, some (utf8 "/w/m.cmake"))]) (by decide +kernel)
  have includes := congrArg (List.map (·.1)) known
  rw [List.map_map] at includes
  change buffer.includes.map id = _ at includes
  rw [List.map_id] at includes
  have apart : ∀ included ∈ buffer.includes, ∀ package ∈ buffer.includes,
      included.isPackage = false → package.isPackage = true → included.name ≠ package.name := by
    rw [includes]
    decide
  obtain ⟨-, -, -, -, -, keeps⟩ := references_keep_files_iff loaded rfl
  have kept := keeps.mpr fun included file package other is_file is_package same =>
    absurd same (apart included file package other is_file is_package)
  obtain ⟨member_m, leads_m⟩ := (leadsTo?_iff_of_map_eq known).mpr List.mem_cons_self
  obtain ⟨member_p, leads_p⟩ :=
    (leadsTo?_iff_of_map_eq known).mpr (List.mem_cons_of_mem _ List.mem_cons_self)
  exact ⟨workspace, buffer, loaded, includes, kept _ member_m _ leads_m,
    kept _ member_p _ leads_p⟩

/-- Behind a package of the same name, the file that is included is not the one in the report. -/
theorem reference_loses_file :
    let tree := (((FileTree.empty [utf8 "w"]).write (utf8 "m.cmake") [] 0).write
      (utf8 "Findm.cmake") [] 0).write (utf8 "x.cmake") (utf8 "include(m)\nfind_package(m)\n") 0
    ∃ workspace buffer, load ⟨tree, []⟩ {} (utf8 "x.cmake") = .ok (workspace, buffer) ∧
      ∃ reference ∈ (ScriptSymbols.ofBuffer tree buffer).includes,
        reference = ⟨utf8 "m", 0, false⟩ ∧
        ScriptSymbols.leadsTo? tree buffer reference = some (utf8 "/w/m.cmake") ∧
        (ScriptSymbols.ofBuffer tree buffer).resolved = [(utf8 "m", utf8 "/w/Findm.cmake")] := by
  intro tree
  obtain ⟨⟨workspace, buffer⟩, loaded, found⟩ := Report.exists_of_map_toOption
    (load ⟨tree, []⟩ {} (utf8 "x.cmake"))
    (fun loaded => (loaded.2.includes.map fun reference =>
      (reference, ScriptSymbols.leadsTo? tree loaded.2 reference),
      ScriptSymbols.resolutions tree loaded.2))
    (b := ([(⟨utf8 "m", 0, false⟩, some (utf8 "/w/m.cmake")),
      (⟨utf8 "m", 1, true⟩, some (utf8 "/w/Findm.cmake"))],
      [(utf8 "m", utf8 "/w/Findm.cmake")])) (by decide +kernel)
  obtain ⟨known, resolved⟩ := Prod.mk.inj found
  obtain ⟨member, leads⟩ := (leadsTo?_iff_of_map_eq known).mpr List.mem_cons_self
  exact ⟨workspace, buffer, loaded, _, member, rfl, leads, resolved⟩

end CommandLine

end CMakeSense
