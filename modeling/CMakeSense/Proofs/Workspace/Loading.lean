import CMakeSense.Proofs.FileTree.Visiting
import CMakeSense.Proofs.Workspace.Buffers

/-! Loading the scripts of a project. The scripts that are loaded are the visible files with the
names of scripts, under the paths that their names make behind the root (`Workspace.mem_scripts`).
They are loaded one after the other: each one that can be read gets a buffer with its content, and
all other buffers stay (`Workspace.shows_foldl_load`, `Workspace.buffer?_foldl_load`). What can be
read are the files that a walk from the root comes upon, except for those with paths that are too
long (`Workspace.finds_iff`). -/

namespace CMakeSense.Workspace

variable {workspace : Workspace} {tree : FileTree} {path other content : Text} {paths : List Text}

theorem mem_paths_iff : path ∈ workspace.paths ↔ (workspace.buffer? path).isSome = true := by
  constructor
  · intro member
    rw [Workspace.paths, Text.sort, List.mem_mergeSort] at member
    obtain ⟨buffer, loaded, rfl⟩ := List.mem_map.mp member
    exact List.find?_isSome.mpr ⟨buffer, loaded, decide_eq_true rfl⟩
  · intro loaded
    obtain ⟨buffer, found⟩ := Option.isSome_iff_exists.mp loaded
    exact mem_paths found

/-- There is a buffer at the path, and it has the content. -/
def Shows (workspace : Workspace) (path content : Text) : Prop :=
  ∃ buffer, workspace.buffer? path = some buffer ∧ buffer.content = content

theorem shows_update (workspace : Workspace) (tree : FileTree) (path content : Text) :
    (workspace.update tree path content).Shows path content :=
  ⟨_, (workspace.buffer?_put ..).trans (if_pos rfl), rfl⟩

/-- Loads a file that may not be there. -/
def load (tree : FileTree) (workspace : Workspace) (path : Text) : Workspace :=
  (workspace.scanFile tree path).toOption.getD workspace

theorem scanAll_eq (workspace : Workspace) (tree : FileTree) :
    workspace.scanAll tree = (workspace.scripts tree).foldl (load tree) workspace := rfl

section Load

theorem load_of_read (read : tree.readFile path = .ok content) :
    load tree workspace path = workspace.update tree path content := by
  rw [load, scanFile, read]
  rfl

theorem load_of_unread (unread : ∀ content, tree.readFile path ≠ .ok content) :
    load tree workspace path = workspace := by
  rw [load, scanFile]
  cases read : tree.readFile path with
  | error => rfl
  | ok content => exact absurd read (unread content)

theorem buffer?_load_of_ne (h : other ≠ path) :
    (load tree workspace path).buffer? other = workspace.buffer? other := by
  by_cases readable : ∃ content, tree.readFile path = .ok content
  · obtain ⟨content, read⟩ := readable
    rw [load_of_read read]
    exact workspace.buffer?_update_of_ne tree content h
  · rw [load_of_unread (not_exists.mp readable)]

theorem Shows.load (shows : workspace.Shows path content) (read : tree.readFile path = .ok content)
    (other : Text) : (load tree workspace other).Shows path content := by
  by_cases same : path = other
  · subst same
    rw [load_of_read read]
    exact shows_update ..
  · obtain ⟨buffer, found, here⟩ := shows
    exact ⟨buffer, (buffer?_load_of_ne same).trans found, here⟩

/-- A file that is loaded is shown, and so is one that was shown before. -/
theorem shows_foldl_load (read : tree.readFile path = .ok content)
    (h : workspace.Shows path content ∨ path ∈ paths) :
    (paths.foldl (load tree) workspace).Shows path content := by
  induction paths generalizing workspace with
  | nil => exact h.resolve_right List.not_mem_nil
  | cons first paths ih =>
    refine ih ?_
    rcases h with shows | member
    · exact .inl (shows.load read first)
    rcases List.mem_cons.mp member with rfl | later
    · rw [load_of_read read]
      exact .inl (shows_update ..)
    · exact .inr later

/-- A buffer stays as it is, unless its file is loaded and can be read. -/
theorem buffer?_foldl_load
    (h : path ∈ paths → ∀ content, tree.readFile path ≠ .ok content) :
    (paths.foldl (load tree) workspace).buffer? path = workspace.buffer? path := by
  induction paths generalizing workspace with
  | nil => rfl
  | cons first paths ih =>
    refine (ih fun later => h (List.mem_cons_of_mem first later)).trans ?_
    by_cases same : path = first
    · subst same
      rw [load_of_unread (h List.mem_cons_self)]
    · exact buffer?_load_of_ne same

end Load

/-- A walk from the root comes upon a script with the content, at a path that can be followed. -/
structure Finds (workspace : Workspace) (tree : FileTree) (path content : Text) : Prop where
  script : isScriptPath path = true
  visits : tree.Visits workspace.root path content
  within : path.length < FileTree.pathLimit

section Scripts

variable {stamp : Stamp} (proper : tree.Proper)
  (directory : tree.find? workspace.root = some (.directory stamp))

include proper directory

theorem mem_scripts : path ∈ workspace.scripts tree ↔ isScriptPath path = true ∧
    ∃ names ∈ tree.visibleFiles workspace.root, path = names.foldl Path.join workspace.root := by
  have given : workspace.root ≠ [] := by
    obtain ⟨_, resolved, _⟩ := FileTree.find?_eq_some.mp directory
    exact (FileTree.resolve_eq_ok.mp resolved).1
  have spelled {names : List Text} (h : names ∈ tree.visibleFiles workspace.root) :
      (if names.isEmpty then workspace.root
        else Path.join workspace.root (Text.join [Ascii.slash] names)) =
        names.foldl Path.join workspace.root := by
    have named := proper.isName_of_mem_visibleFiles h
    cases names with
    | nil => rfl
    | cons name names =>
      rw [Path.foldl_join given named (List.cons_ne_nil _ _)]
      exact Path.join_names given named (List.cons_ne_nil _ _)
  rw [scripts, List.mem_filter, List.mem_map]
  constructor
  · rintro ⟨⟨names, visible, rfl⟩, script⟩
    exact ⟨script, names, visible, spelled visible⟩
  · rintro ⟨script, names, visible, rfl⟩
    exact ⟨⟨names, visible, spelled visible⟩, script⟩

/-- The scripts that are found are those that can be read. -/
theorem finds_iff : workspace.Finds tree path content ↔
    path ∈ workspace.scripts tree ∧ tree.readFile path = .ok content := by
  rw [mem_scripts proper directory, and_assoc, ← proper.visits_iff directory]
  exact ⟨fun ⟨script, visits, within⟩ => ⟨script, visits, within⟩,
    fun ⟨script, visits, within⟩ => ⟨script, visits, within⟩⟩

end Scripts

/-- **All visible scripts are loaded, and nothing else.** After the scripts below the root have been
loaded, there are buffers at the paths that had one before and at the paths of the scripts that are
reached from the root without entering a hidden directory, as long as these paths are not too long.
Each of these scripts is shown with its content, and all other buffers are as before. -/
theorem scanAll_loads_visible_scripts (workspace : Workspace) (tree : FileTree)
    (proper : tree.Proper) (stamp : Stamp)
    (directory : tree.find? workspace.root = some (.directory stamp)) :
    (∀ path, path ∈ (workspace.scanAll tree).paths ↔
      path ∈ workspace.paths ∨ ∃ content, workspace.Finds tree path content) ∧
    (∀ path content, workspace.Finds tree path content → ∃ buffer,
      (workspace.scanAll tree).buffer? path = some buffer ∧ buffer.content = content) ∧
    ∀ path, (¬ ∃ content, workspace.Finds tree path content) →
      (workspace.scanAll tree).buffer? path = workspace.buffer? path := by
  have shown (path content : Text) (found : workspace.Finds tree path content) :
      (workspace.scanAll tree).Shows path content := by
    obtain ⟨member, read⟩ := (finds_iff proper directory).mp found
    rw [scanAll_eq]
    exact shows_foldl_load read (.inr member)
  have kept (path : Text) (h : ¬ ∃ content, workspace.Finds tree path content) :
      (workspace.scanAll tree).buffer? path = workspace.buffer? path := by
    rw [scanAll_eq]
    refine buffer?_foldl_load fun member content read => h ⟨content, ?_⟩
    exact (finds_iff proper directory).mpr ⟨member, read⟩
  refine ⟨fun path => ?_, shown, kept⟩
  rw [mem_paths_iff, mem_paths_iff]
  by_cases h : ∃ content, workspace.Finds tree path content
  · obtain ⟨content, found⟩ := h
    obtain ⟨buffer, loaded, _⟩ := shown path content found
    exact iff_of_true (loaded ▸ rfl) (.inr ⟨content, found⟩)
  · rw [kept path h, or_iff_left h]

/-- The root is hidden, and so is one of the directories in it. -/
theorem scanAll_loads_visible_scripts_of_hidden_root :
    let tree := ((FileTree.empty [utf8 "w"]).write (utf8 ".h/.git/x.cmake") [] 0).write
      (utf8 ".h/s/Y.CMake") (utf8 "set(A 1)") 0
    let workspace := (Workspace.new (utf8 ".h") .default).update tree (utf8 "z") []
    tree.Proper ∧ tree.find? workspace.root = some (.directory 2000000005) ∧
      workspace.Finds tree (utf8 ".h/s/Y.CMake") (utf8 "set(A 1)") ∧
      (∃ buffer, (workspace.scanAll tree).buffer? (utf8 ".h/s/Y.CMake") = some buffer ∧
        buffer.content = utf8 "set(A 1)") ∧
      utf8 "z" ∈ (workspace.scanAll tree).paths ∧
      utf8 ".h/.git/x.cmake" ∉ (workspace.scanAll tree).paths := by
  intro tree workspace
  have made : FileTree.Made tree :=
    ((FileTree.Made.empty (by decide)).write (by decide +kernel) _ 0).write (by decide +kernel) _ 0
  have directory : tree.find? workspace.root = some (.directory 2000000005) := by decide +kernel
  have top : tree.entry? [utf8 "w", utf8 ".h"] = some (.directory 2000000005) := by decide +kernel
  have below : tree.entry? [utf8 "w", utf8 ".h", utf8 "s"] = some (.directory 2000000006) := by
    decide +kernel
  have entered : tree.Enters [utf8 "w", utf8 ".h"] ([] ++ [utf8 "s"]) :=
    .next (.start top) (by decide) below
  have found : workspace.Finds tree (utf8 ".h/s/Y.CMake") (utf8 "set(A 1)") := by
    refine ⟨by decide +kernel, ?_, by decide⟩
    exact ⟨_, _, utf8 "Y.CMake", 0, by rfl, entered, by decide +kernel, by decide⟩
  obtain ⟨paths, shown, _⟩ := scanAll_loads_visible_scripts workspace tree made.proper _ directory
  refine ⟨made.proper, directory, found, shown _ _ found, ?_, ?_⟩
  · exact (paths _).mpr (.inl (by decide +kernel))
  · rw [mem_paths_iff]
    decide +kernel

/-- The path of the root is short enough for a walk to start there, and that of the script is too
long for the script to be read. -/
theorem script_too_long_not_loaded :
    let tree := (FileTree.empty [utf8 "vfs", utf8 "cmakels_workspace"]).write
      (utf8 "CMakeLists.txt") (utf8 "set(A 1)\n") 0
    let root := (List.replicate 1355 (utf8 "../")).flatten ++ utf8 "vfs/cmakels_workspace"
    let path := Path.join root (utf8 "CMakeLists.txt")
    tree.Proper ∧ tree.find? root = some (.directory 2000000003) ∧ isScriptPath path = true ∧
      tree.Visits root path (utf8 "set(A 1)\n") ∧
      path ∉ ((Workspace.new root .default).scanAll tree).paths := by
  intro tree root path
  have made : FileTree.Made tree := (FileTree.Made.empty (by decide)).write (by decide +kernel) _ 0
  have top : tree.entry? [utf8 "vfs", utf8 "cmakels_workspace"] = some (.directory 2000000003) := by
    decide +kernel
  have resolved : tree.resolve root = .ok [utf8 "vfs", utf8 "cmakels_workspace"] := by
    decide +kernel
  have script : isScriptPath path = true := by
    have given : root ≠ [] := (FileTree.resolve_eq_ok.mp resolved).1
    rw [isScriptPath, Path.base_join given (by decide)]
    decide +kernel
  have visits : tree.Visits root path (utf8 "set(A 1)\n") := by
    refine ⟨_, [], utf8 "CMakeLists.txt", 0, resolved, .start top, by decide +kernel, ?_⟩
    rw [List.nil_append, List.foldl_cons, List.foldl_nil]
  exact ⟨made.proper, FileTree.find?_eq_some.mpr ⟨_, resolved, top⟩, script, visits,
    by decide +kernel⟩

end CMakeSense.Workspace
