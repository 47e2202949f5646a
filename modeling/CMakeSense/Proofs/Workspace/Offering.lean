import CMakeSense.Proofs.FileTree.Following
import CMakeSense.Proofs.Workspace.Inclusion
import CMakeSense.Query.Strategy

/-! References that are offered lead to files. A file next to a script is offered under its own
name, a shared module under its name without the ending, and a module that finds a package under
the name of the package; in each case the file's path is among those that the reference can mean
(`Include.mem_paths`). The path is read only while it is not too long, so a module in a directory
with a very long path is offered and not found (`FileTree.offered_module_not_found`). -/

namespace CMakeSense

namespace Text

theorem dropPrefix?_eq_some {p t rest : Text} (h : dropPrefix? p t = some rest) :
    t = p ++ rest := by
  induction p generalizing t with
  | nil => exact Option.some.inj h
  | cons a p ih =>
    cases t with
    | nil => cases h
    | cons b t =>
      rw [dropPrefix?] at h
      split at h
      · next same => rw [same, ih h, List.cons_append]
      · cases h

theorem dropSuffix?_append (p rest : Text) : dropSuffix? p (rest ++ p) = some rest := by
  have ends : p.isSuffixOf (rest ++ p) = true :=
    List.isSuffixOf_iff_suffix.mpr (List.suffix_append ..)
  rw [dropSuffix?, if_pos ends]
  simp

theorem dropSuffix?_eq_some {p t rest : Text} (h : dropSuffix? p t = some rest) :
    t = rest ++ p := by
  unfold dropSuffix? at h
  split at h
  · next ends =>
    obtain ⟨front, rfl⟩ := List.isSuffixOf_iff_suffix.mp ends
    rw [← Option.some.inj h]
    simp
  · cases h

end Text

namespace Include

variable {reference : Include} {tree : FileTree} {dir modulesDir base file name : Text}

theorem mem_paths (relative : Path.isAbsolute reference.name = false)
    (member : base ∈ [dir, modulesDir]) (given : base ≠ []) (named : file ∈ reference.fileNames) :
    Path.join base file ∈ reference.paths dir modulesDir := by
  rw [paths, relative, Bool.false_and, if_neg Bool.false_ne_true, List.mem_flatMap]
  refine ⟨base, List.mem_filter.mpr ⟨member, ?_⟩, List.mem_map_of_mem named⟩
  simpa [List.isEmpty_iff] using given

theorem exists_resolve? (static : ¬ utf8 "$\x7b" <:+: reference.name)
    (member : file ∈ reference.paths dir modulesDir) (isFile : tree.isFile file = true) :
    ∃ found, reference.resolve? tree dir modulesDir = some found := by
  rw [resolve?, if_neg (mt isDynamic_iff.mp static), ← Option.isSome_iff_exists,
    List.find?_isSome]
  exact ⟨file, member, isFile⟩

end Include

namespace FileTree

variable {tree : FileTree} {dir file name : Text}

theorem localInclude?_eq_some (h : localInclude? file = some name) : name = file := by
  unfold localInclude? at h
  split at h
  · exact (Option.some.inj h).symm
  · cases h

theorem moduleInclude?_eq_some (h : moduleInclude? file = some name) :
    file = name ++ scriptEnding := by
  unfold moduleInclude? at h
  split at h
  · cases h
  · exact Text.dropSuffix?_eq_some h

/-- The marks of a module that finds a package do not overlap. -/
theorem package?_eq_some (h : package? file = some name) :
    file = utf8 "Find" ++ name ++ scriptEnding := by
  obtain ⟨rest, begins, h⟩ := Option.bind_eq_some_iff.mp h
  obtain rfl := Text.dropPrefix?_eq_some begins
  split at h
  · next ends =>
    have ending : ∃ front, rest = front ++ scriptEnding := by
      obtain ⟨front, parts⟩ := List.isSuffixOf_iff_suffix.mp ends
      rcases List.append_eq_append_iff.mp parts with ⟨inner, start, tail⟩ | ⟨inner, _, tail⟩
      · cases inner with
        | nil => exact ⟨[], tail.symm⟩
        | cons c inner =>
          -- An overlap would begin with the dot of the ending.
          have dot : c = Ascii.dot := (List.cons.inj tail).1.symm
          have member : Ascii.dot ∈ utf8 "Find" := by
            rw [start, dot]
            simp
          exact absurd member (by decide)
      · exact ⟨inner, tail⟩
    obtain ⟨front, rfl⟩ := ending
    rw [Text.trimSuffix, Text.dropSuffix?_append] at h
    simp only [Option.getD_some] at h
    split at h
    · cases h
    · rw [← Option.some.inj h, List.append_assoc]
  · cases h

theorem exists_of_mem_fileNames (h : name ∈ tree.fileNames dir) :
    ∃ content stamp, (name, .file content stamp) ∈ tree.list dir := by
  obtain ⟨⟨name', entry⟩, member, rfl⟩ := List.mem_map.mp h
  obtain ⟨listed, isFile⟩ := List.mem_filter.mp member
  cases entry with
  | file content stamp => exact ⟨content, stamp, listed⟩
  | directory stamp => cases isFile

theorem Proper.isFile_join (proper : tree.Proper) (h : name ∈ tree.fileNames dir)
    (within : (Path.join dir name).length < pathLimit) :
    tree.isFile (Path.join dir name) = true := by
  obtain ⟨content, stamp, listed⟩ := exists_of_mem_fileNames h
  exact isFile_iff.mpr ⟨content, stamp, proper.find?_join listed within⟩

/-- A file that is offered under a name is among those that the name can mean. -/
def Offers (offer : Text → Option Text) (isPackage : Bool) : Prop :=
  ∀ file name line, offer file = some name →
    name <:+: file ∧ file ∈ (Include.mk name line isPackage).fileNames

theorem offers_localInclude? : Offers localInclude? false := by
  intro file name line h
  rw [localInclude?_eq_some h]
  exact ⟨List.infix_rfl, List.mem_cons_self⟩

theorem offers_moduleInclude? : Offers moduleInclude? false := by
  intro file name line h
  rw [moduleInclude?_eq_some h]
  exact ⟨(List.prefix_append ..).isInfix, List.mem_cons_of_mem _ List.mem_cons_self⟩

theorem offers_package? : Offers package? true := by
  intro file name line h
  rw [package?_eq_some h]
  exact ⟨List.infix_append .., List.mem_cons_self⟩

/-- The paths of the files in a directory that are offered under a name. -/
def offeredPaths (tree : FileTree) (offer : Text → Option Text) (dir name : Text) : List Text :=
  ((tree.fileNames dir).filter (offer · = some name)).map (Path.join dir)

variable {offer : Text → Option Text} {base path modulesDir : Text} {line : Int} {isPackage : Bool}

theorem Proper.exists_of_mem_offeredPaths (proper : tree.Proper)
    (h : path ∈ tree.offeredPaths offer base name) : ∃ file ∈ tree.fileNames base,
      offer file = some name ∧ path = Path.join base file ∧ Path.IsName file ∧ base ≠ [] := by
  obtain ⟨file, member, rfl⟩ := List.mem_map.mp h
  obtain ⟨listed, offers⟩ := List.mem_filter.mp member
  obtain ⟨_, _, entry⟩ := exists_of_mem_fileNames listed
  refine ⟨file, listed, by simpa using offers, rfl, proper.isName_of_mem_list entry, ?_⟩
  rintro rfl
  cases entry

/-- A name leads to a file if one that it is offered for has a path that is not too long. -/
theorem Proper.exists_resolve? (proper : tree.Proper) (offers : Offers offer isPackage)
    (static : ¬ utf8 "$\x7b" <:+: name) (member : base ∈ [dir, modulesDir])
    (offered : path ∈ tree.offeredPaths offer base name) (within : path.length < pathLimit) :
    ∃ file, (Include.mk name line isPackage).resolve? tree dir modulesDir = some file := by
  obtain ⟨file, listed, stands, rfl, isName, given⟩ := proper.exists_of_mem_offeredPaths offered
  obtain ⟨part, meant⟩ := offers file name line stands
  have relative : Path.isAbsolute name = false := by
    have slash : Ascii.slash ∉ name := fun inside => isName.slash (part.subset inside)
    cases name with
    | nil => rfl
    | cons c name =>
      have other : c ≠ Ascii.slash := fun eq => slash (eq ▸ List.mem_cons_self)
      simpa [Path.isAbsolute] using other
  exact Include.exists_resolve? static (Include.mem_paths relative member given meant)
    (proper.isFile_join listed within)

/-- The file that finds a package is called after it. -/
theorem base_of_resolve?_package {found : Text}
    (named : Path.IsName (utf8 "Find" ++ name ++ utf8 ".cmake"))
    (h : (Include.mk name line true).resolve? tree dir modulesDir = some found) :
    Path.base found = utf8 "Find" ++ name ++ utf8 ".cmake" := by
  unfold Include.resolve? at h
  split at h
  · cases h
  · have member := List.mem_of_find?_eq_some h
    rw [Include.paths, Bool.not_true, Bool.and_false, if_neg Bool.false_ne_true,
      List.mem_flatMap] at member
    obtain ⟨base, given, member⟩ := member
    obtain rfl := List.mem_singleton.mp member
    refine Path.base_join ?_ named
    simpa [List.isEmpty_iff] using (List.mem_filter.mp given).2

/-- **What is offered to include or to find leads to a file.** A name that is offered to a script,
and in which no variable is to be filled in, leads to a regular file, and the name of a package to
the file that finds it, unless the paths of all files that are offered under the name are too
long. -/
theorem offered_references_resolve (tree : FileTree) (proper : tree.Proper) (source : Source)
    (line : Int) :
    let modulesDir := source.options.modulesDir
    let resolve? (name : Text) (isPackage : Bool) :=
      (IncludeCache.new modulesDir).resolve? tree (Path.dir source.path) ⟨name, line, isPackage⟩
    (∀ name ∈ tree.includeFiles source.dir modulesDir, ¬ utf8 "$\x7b" <:+: name →
      (∃ path ∈ tree.offeredPaths localInclude? source.dir name ++
        tree.offeredPaths moduleInclude? modulesDir name, path.length < pathLimit) →
      ∃ file, resolve? name false = some file ∧ tree.isFile file = true) ∧
    ∀ name ∈ tree.packages source.dir modulesDir, ¬ utf8 "$\x7b" <:+: name →
      (∃ path ∈ tree.offeredPaths package? source.dir name ++
        tree.offeredPaths package? modulesDir name, path.length < pathLimit) →
      ∃ file, resolve? name true = some file ∧ tree.isFile file = true ∧
        Path.base file = utf8 "Find" ++ name ++ utf8 ".cmake" := by
  intro modulesDir resolve?
  have local_mem : source.dir ∈ [source.dir, modulesDir] := List.mem_cons_self
  have module_mem : modulesDir ∈ [source.dir, modulesDir] :=
    List.mem_cons_of_mem _ List.mem_cons_self
  constructor
  · rintro name - static ⟨path, offered, within⟩
    have found : ∃ file, resolve? name false = some file := by
      rcases List.mem_append.mp offered with offered | offered
      · exact proper.exists_resolve? offers_localInclude? static local_mem offered within
      · exact proper.exists_resolve? offers_moduleInclude? static module_mem offered within
    obtain ⟨file, found⟩ := found
    exact ⟨file, found, Include.isFile_of_resolve? found⟩
  · rintro name - static ⟨path, offered, within⟩
    have found : ∃ base ∈ [source.dir, modulesDir],
        path ∈ tree.offeredPaths package? base name := by
      rcases List.mem_append.mp offered with offered | offered
      · exact ⟨_, local_mem, offered⟩
      · exact ⟨_, module_mem, offered⟩
    obtain ⟨base, member, offered⟩ := found
    obtain ⟨file, found⟩ : ∃ file, resolve? name true = some file :=
      proper.exists_resolve? offers_package? static member offered within
    obtain ⟨_, _, stands, _, isName, _⟩ := proper.exists_of_mem_offeredPaths offered
    refine ⟨file, found, Include.isFile_of_resolve? found, base_of_resolve?_package ?_ found⟩
    exact package?_eq_some stands ▸ isName

/-- A module whose name is a dot, among the shared modules, and a module next to the script that
finds a package. -/
theorem offered_references_resolve_for_odd_names :
    let tree := ((FileTree.empty [utf8 "w"]).write (utf8 "m/..cmake") [] 0).write
      (utf8 "s/FindX.cmake") [] 0
    let source : Source := ⟨utf8 "s/CMakeLists.txt", [], .absent, ⟨false, utf8 "m"⟩⟩
    let resolve? (name : Text) (isPackage : Bool) :=
      (IncludeCache.new (utf8 "m")).resolve? tree (Path.dir source.path) ⟨name, 0, isPackage⟩
    tree.Proper ∧
      (utf8 "." ∈ tree.includeFiles source.dir (utf8 "m") ∧
        utf8 "m/..cmake" ∈ tree.offeredPaths moduleInclude? (utf8 "m") (utf8 ".") ∧
        ∃ file, resolve? (utf8 ".") false = some file ∧ tree.isFile file = true) ∧
      utf8 "X" ∈ tree.packages source.dir (utf8 "m") ∧
        utf8 "s/FindX.cmake" ∈ tree.offeredPaths package? source.dir (utf8 "X") ∧
        ∃ file, resolve? (utf8 "X") true = some file ∧ tree.isFile file = true ∧
          Path.base file = utf8 "Find" ++ utf8 "X" ++ utf8 ".cmake" := by
  intro tree source resolve?
  have made : Made tree :=
    ((Made.empty (by decide)).write (by decide +kernel) [] 0).write (by decide +kernel) [] 0
  have listed : utf8 "." ∈ tree.includeFiles source.dir (utf8 "m") := by decide +kernel
  have module_mem : utf8 "m/..cmake" ∈ tree.offeredPaths moduleInclude? (utf8 "m") (utf8 ".") := by
    decide +kernel
  have found : utf8 "X" ∈ tree.packages source.dir (utf8 "m") := by decide +kernel
  have package_mem : utf8 "s/FindX.cmake" ∈ tree.offeredPaths package? source.dir (utf8 "X") := by
    decide +kernel
  have resolves := offered_references_resolve tree made.proper source 0
  exact ⟨made.proper,
    ⟨listed, module_mem, resolves.1 _ listed (by decide)
      ⟨_, List.mem_append_right _ module_mem, by decide⟩⟩,
    found, package_mem, resolves.2 _ found (by decide)
      ⟨_, List.mem_append_left _ package_mem, by decide⟩⟩

/-- The path of the directory is short enough to be listed, and that of the module is too long to
be followed. -/
theorem offered_module_not_found :
    let tree := (FileTree.empty [utf8 "vfs", utf8 "cmakels_workspace"]).write
      (utf8 "m/abcdefgh.cmake") [] 0
    let modulesDir := (List.replicate 1354 (utf8 "../")).flatten ++ utf8 "vfs/cmakels_workspace/m"
    tree.Proper ∧ utf8 "abcdefgh" ∈ tree.includeFiles (utf8 ".") modulesDir ∧
      ¬ utf8 "$\x7b" <:+: utf8 "abcdefgh" ∧
      (IncludeCache.new modulesDir).resolve? tree (utf8 ".") ⟨utf8 "abcdefgh", 0, false⟩ =
        none := by
  intro tree modulesDir
  have made : Made tree := (Made.empty (by decide)).write (by decide +kernel) [] 0
  exact ⟨made.proper, by decide +kernel, by decide, by decide +kernel⟩

end FileTree

end CMakeSense
