import CMakeSense.Proofs.Text.Distinct
import CMakeSense.Proofs.Workspace.Buffers
import Mathlib.Data.List.Basic

/-! What a cache depends on. The entries of a cache come from the files that its references lead to,
so a rebuild finds the same entries as long as the references lead to the same files and these have
not changed (`Buffer.BuiltFrom.entries_eq`). A reference goes on leading to a file that is still
there unless a file has come to stand before it in the order of the paths that the reference can
mean (`Include.Overtaken`), and one that led nowhere does so until a file for it appears. -/

namespace CMakeSense

namespace FileTree

variable {tree now : FileTree} {path : Text}

theorem isFile_iff : tree.isFile path = true ↔
    ∃ content stamp, tree.find? path = some (.file content stamp) := by
  unfold isFile
  split
  · next content stamp found => simp [found]
  · next other => simp_all

/-- Reading a file goes by what the path leads to. -/
theorem toOption_readFile : (tree.readFile path).toOption = match tree.find? path with
    | some (.file content _) => some content
    | _ => none := by
  unfold readFile find?
  cases tree.stat path with
  | error cause => rfl
  | ok entry => cases entry <;> rfl

end FileTree

namespace Include

/-- A file has come to stand before the one that the reference led to. -/
def Overtaken (reference : Include) (tree now : FileTree) (dir modulesDir : Text) : Prop :=
  ∃ file, reference.resolve? tree dir modulesDir = some file ∧
    ∃ other ∈ (reference.paths dir modulesDir).takeWhile (· ≠ file), now.isFile other = true

instance (reference : Include) (tree now : FileTree) (dir modulesDir : Text) :
    Decidable (reference.Overtaken tree now dir modulesDir) :=
  inferInstanceAs (Decidable (∃ file ∈ reference.resolve? tree dir modulesDir,
    ∃ other ∈ (reference.paths dir modulesDir).takeWhile (· ≠ file), now.isFile other = true))

variable {reference : Include} {tree now : FileTree} {dir modulesDir file : Text}

/-- What a reference names decides whether it is overtaken. -/
theorem overtaken_of_key_eq {a b : Include} (h : a.key = b.key) :
    a.Overtaken tree now dir modulesDir ↔ b.Overtaken tree now dir modulesDir := by
  obtain ⟨name, _, isPackage⟩ := a
  obtain ⟨name', _, isPackage'⟩ := b
  cases h
  exact Iff.rfl

theorem isFile_of_resolve? (h : reference.resolve? tree dir modulesDir = some file) :
    tree.isFile file = true := by
  unfold resolve? at h
  split at h
  · cases h
  · exact List.find?_some h

private theorem find?_eq_some_of_takeWhile {p : Text → Bool} {files : List Text}
    (member : file ∈ files) (here : p file = true)
    (before : ∀ other ∈ files.takeWhile (· ≠ file), p other = false) :
    files.find? p = some file := by
  induction files with
  | nil => cases member
  | cons first files ih =>
    by_cases same : first = file
    · rw [same, List.find?_cons_of_pos here]
    · have passed : (first :: files).takeWhile (· ≠ file) =
          first :: files.takeWhile (· ≠ file) := by simp [same]
      rw [passed] at before
      rw [List.find?_cons_of_neg (by simp [before first List.mem_cons_self])]
      refine ih ?_ fun other hother => before other (List.mem_cons_of_mem first hother)
      rcases List.mem_cons.mp member with rfl | later
      · exact absurd rfl same
      · exact later

/-- A reference goes on leading to a file that is still there, unless another one overtakes it. -/
theorem resolve?_of_not_overtaken (h : reference.resolve? tree dir modulesDir = some file)
    (there : now.isFile file = true) (kept : ¬ reference.Overtaken tree now dir modulesDir) :
    reference.resolve? now dir modulesDir = some file := by
  have led := h
  unfold resolve? at h ⊢
  split at h
  · cases h
  · next static =>
    rw [if_neg static]
    refine find?_eq_some_of_takeWhile (List.mem_of_find?_eq_some h) there fun other hother => ?_
    exact Bool.eq_false_iff.mpr fun isFile => kept ⟨file, led, other, hother, isFile⟩

theorem resolve?_of_isDynamic (h : reference.isDynamic = true) :
    reference.resolve? tree dir modulesDir = none := if_pos h

end Include

namespace IncludeCache

variable {cache : IncludeCache} {tree now : FileTree} {path : Text} {includes : List Include}

theorem Entry.read?_eq (h : now.find? path = tree.find? path) :
    Entry.read? now path = Entry.read? tree path := by
  simp only [Entry.read?, FileTree.toOption_readFile, h]

/-- The files of a cache are those that its references lead to. -/
theorem mem_paths_rebuild {file : Text} : file ∈ (cache.rebuild tree path includes).paths ↔
    ∃ reference ∈ includes, cache.resolve? tree (Path.dir path) reference = some file := by
  simp only [paths, rebuild, List.mem_map, List.mem_filterMap, Text.mem_distinct]
  constructor
  · rintro ⟨entry, ⟨found, resolved, read⟩, rfl⟩
    obtain ⟨content, _, rfl⟩ := Option.map_eq_some_iff.mp read
    exact resolved
  · rintro ⟨reference, member, resolved⟩
    obtain ⟨content, stamp, found⟩ := FileTree.isFile_iff.mp (Include.isFile_of_resolve? resolved)
    refine ⟨Entry.ofContent file content, ⟨file, ⟨reference, member, resolved⟩, ?_⟩, rfl⟩
    rw [Entry.read?, FileTree.toOption_readFile, found]
    rfl

theorem find?_of_mem_paths {file : Text} (h : file ∈ (cache.rebuild tree path includes).paths) :
    ∃ content stamp, tree.find? file = some (.file content stamp) := by
  obtain ⟨reference, _, resolved⟩ := mem_paths_rebuild.mp h
  exact FileTree.isFile_iff.mp (Include.isFile_of_resolve? resolved)

/-- References that lead to the same unchanged files give the same entries. -/
theorem entries_rebuild_eq
    (same : ∀ reference ∈ includes, cache.resolve? now (Path.dir path) reference =
      cache.resolve? tree (Path.dir path) reference)
    (unchanged : ∀ file ∈ (cache.rebuild tree path includes).paths,
      now.find? file = tree.find? file) :
    (cache.rebuild now path includes).entries = (cache.rebuild tree path includes).entries := by
  simp only [rebuild]
  rw [List.filterMap_congr same]
  refine List.filterMap_congr fun file member => Entry.read?_eq (unchanged file ?_)
  rw [Text.mem_distinct, List.mem_filterMap] at member
  exact mem_paths_rebuild.mpr member

/-- What led nowhere at a rebuild leads nowhere as long as nothing has appeared. -/
theorem resolve?_of_not_hasAppeared (h : (cache.rebuild tree path includes).hasAppeared now = false)
    {reference : Include} (member : reference ∈ includes)
    (nowhere : cache.resolve? tree (Path.dir path) reference = none) :
    cache.resolve? now (Path.dir path) reference = none := by
  cases dynamic : reference.isDynamic with
  | true => exact Include.resolve?_of_isDynamic dynamic
  | false =>
    have unresolved : reference ∈ (cache.rebuild tree path includes).unresolved := by
      simp [rebuild, List.mem_filter, member, nowhere, dynamic]
    have absent := List.any_eq_false.mp h reference unresolved
    exact Option.not_isSome_iff_eq_none.mp absent

end IncludeCache

namespace Buffer.BuiltFrom

variable {buffer : Buffer} {modulesDir : Text} {tree now : FileTree} {path : Text}

theorem find?_of_mem_paths (h : buffer.BuiltFrom modulesDir tree path) {file : Text}
    (member : file ∈ buffer.cache.paths) :
    ∃ content stamp, tree.find? file = some (.file content stamp) := by
  obtain ⟨_, _, includes, _, cache⟩ := h
  rw [cache] at member
  exact IncludeCache.find?_of_mem_paths member

/-- A cache is up to date while its files are as they were, nothing that it lacks has appeared and
no reference has been overtaken. -/
theorem entries_eq (h : buffer.BuiltFrom modulesDir tree path)
    (unchanged : ∀ file ∈ buffer.cache.paths, now.find? file = tree.find? file)
    (appeared : buffer.cache.hasAppeared now = false)
    (kept : ∀ reference ∈ buffer.includes,
      ¬ reference.Overtaken tree now (Path.dir path) modulesDir) :
    buffer.cache.entries =
      ((IncludeCache.new modulesDir).rebuild now path buffer.includes).entries := by
  obtain ⟨_, _, includes, same, cache⟩ := h
  rw [cache] at unchanged appeared ⊢
  rw [← IncludeCache.entries_rebuild_of_sameFiles _ now path same]
  refine (IncludeCache.entries_rebuild_eq (fun reference member => ?_) unchanged).symm
  cases led : (IncludeCache.new modulesDir).resolve? tree (Path.dir path) reference with
  | none => exact IncludeCache.resolve?_of_not_hasAppeared appeared member led
  | some file =>
    have there : now.isFile file = true := by
      have member := IncludeCache.mem_paths_rebuild.mpr ⟨reference, member, led⟩
      rw [FileTree.isFile_iff, unchanged file member]
      exact IncludeCache.find?_of_mem_paths member
    refine Include.resolve?_of_not_overtaken led there fun overtaken => ?_
    obtain ⟨other, present, key⟩ := Include.exists_mem_of_sameFiles same member
    exact kept other present ((Include.overtaken_of_key_eq key).mpr overtaken)

end Buffer.BuiltFrom

end CMakeSense
