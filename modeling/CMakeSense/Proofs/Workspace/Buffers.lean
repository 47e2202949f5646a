import CMakeSense.Workspace.Basic

/-! Buffers and their caches. Everything that is done to a workspace comes down to three edits, each
of the buffer at one path (`Workspace.Edit`): it is given new content, closed, or has its cache
rebuilt. `Workspace.Edit.apply_cases` says what an edit leaves at any path; in particular the cache
of a buffer is at all times what a rebuild makes of the files that the buffer refers to now
(`Buffer.BuiltFrom`), although the references may have moved to other lines since. -/

namespace CMakeSense

namespace Include

/-- What a reference names, wherever it stands. -/
def key (reference : Include) : Text × Bool := (reference.name, reference.isPackage)

theorem sameFiles_iff {a b : List Include} : sameFiles a b = true ↔ a.map key = b.map key :=
  decide_eq_true_iff

theorem sameFiles_refl (a : List Include) : sameFiles a a = true := sameFiles_iff.mpr rfl

theorem sameFiles_trans {a b c : List Include} (ab : sameFiles a b = true)
    (bc : sameFiles b c = true) : sameFiles a c = true := by
  rw [sameFiles_iff] at ab bc ⊢
  exact ab.trans bc

theorem exists_mem_of_sameFiles {a b : List Include} (same : sameFiles a b = true)
    {reference : Include} (h : reference ∈ a) : ∃ other ∈ b, other.key = reference.key := by
  rw [sameFiles_iff] at same
  have member : reference.key ∈ b.map key := same ▸ List.mem_map_of_mem h
  exact List.mem_map.mp member

/-- A reference is followed by what it names alone. -/
theorem resolve?_of_key_eq {a b : Include} (h : a.key = b.key) :
    a.resolve? = b.resolve? ∧ a.isDynamic = b.isDynamic := by
  obtain ⟨name, _, isPackage⟩ := a
  obtain ⟨name', _, isPackage'⟩ := b
  cases h
  exact ⟨rfl, rfl⟩

theorem filterMap_of_sameFiles {β : Type} {f : Include → Option β}
    (hf : ∀ a b : Include, a.key = b.key → f a = f b) {a b : List Include}
    (same : sameFiles a b = true) : a.filterMap f = b.filterMap f := by
  rw [sameFiles_iff] at same
  have through (l : List Include) :
      l.filterMap f = (l.map key).filterMap fun k => f ⟨k.1, 0, k.2⟩ := by
    rw [List.filterMap_map]
    congr 1
    funext reference
    exact hf _ _ rfl
  rw [through a, through b, same]

end Include

namespace IncludeCache

/-- The entries of a cache do not tell on which lines the references stood. -/
theorem entries_rebuild_of_sameFiles (cache : IncludeCache) (tree : FileTree) (path : Text)
    {a b : List Include} (same : Include.sameFiles a b = true) :
    (cache.rebuild tree path a).entries = (cache.rebuild tree path b).entries := by
  have resolved : a.filterMap (cache.resolve? tree (Path.dir path)) =
      b.filterMap (cache.resolve? tree (Path.dir path)) := by
    refine Include.filterMap_of_sameFiles (fun x y key => ?_) same
    rw [resolve?, resolve?, (Include.resolve?_of_key_eq key).1]
  simp only [rebuild, resolved]

end IncludeCache

/-- The buffer reads its own content, and its cache is what a rebuild of it from a file tree
made, at a time when the buffer referred to the same files as now. -/
structure Buffer.BuiltFrom (buffer : Buffer) (modulesDir : Text) (tree : FileTree) (path : Text) :
    Prop where
  lines : buffer.lines = Script.lines buffer.content
  includes : buffer.includes = Script.includes buffer.lines
  cache : ∃ includes, Include.sameFiles includes buffer.includes = true ∧
    buffer.cache = (IncludeCache.new modulesDir).rebuild tree path includes

namespace Buffer.BuiltFrom

variable {buffer : Buffer} {modulesDir : Text} {tree : FileTree} {path : Text}

theorem entries (h : buffer.BuiltFrom modulesDir tree path) :
    buffer.cache.entries =
      ((IncludeCache.new modulesDir).rebuild tree path buffer.includes).entries := by
  obtain ⟨_, _, includes, same, cache⟩ := h
  rw [cache]
  exact IncludeCache.entries_rebuild_of_sameFiles _ _ _ same

theorem modulesDir_cache (h : buffer.BuiltFrom modulesDir tree path) :
    buffer.cache.modulesDir = modulesDir := by
  obtain ⟨_, _, includes, _, cache⟩ := h
  rw [cache]
  rfl

/-- A rebuild of the buffer's cache. -/
theorem rebuild (h : buffer.BuiltFrom modulesDir tree path) (now : FileTree) :
    { buffer with cache := buffer.cache.rebuild now path buffer.includes }.BuiltFrom modulesDir now
      path := by
  refine ⟨h.lines, h.includes, buffer.includes, Include.sameFiles_refl _, ?_⟩
  rw [← h.modulesDir_cache]
  rfl

end Buffer.BuiltFrom

namespace Workspace

section Buffers
variable (workspace : Workspace) (tree : FileTree) (path content other : Text)

theorem path_of_buffer? {workspace : Workspace} {path : Text} {buffer : Buffer}
    (h : workspace.buffer? path = some buffer) : buffer.path = path := by
  have found := List.find?_some h
  exact of_decide_eq_true found

theorem mem_paths {workspace : Workspace} {path : Text} {buffer : Buffer}
    (h : workspace.buffer? path = some buffer) : path ∈ workspace.paths := by
  rw [paths, Text.sort, List.mem_mergeSort]
  exact List.mem_map.mpr ⟨buffer, List.mem_of_find?_eq_some h, path_of_buffer? h⟩

theorem buffer?_remove : (workspace.remove path).buffer? other =
    if path = other then none else workspace.buffer? other := by
  simp only [buffer?, remove, List.find?_filter]
  split
  · next same =>
    rw [List.find?_eq_none]
    intro buffer _
    simp [same]
  · next differs =>
    congr 1
    funext buffer
    by_cases here : buffer.path = other
    · simp [here, Ne.symm differs]
    · simp [here]

theorem buffer?_put (buffer : Buffer) : (workspace.put buffer).buffer? other =
    if buffer.path = other then some buffer else workspace.buffer? other := by
  have rest := workspace.buffer?_remove buffer.path other
  simp only [buffer?, remove] at rest
  simp only [buffer?, put, List.find?_append, rest]
  split
  · next same => simp [same]
  · next differs => simp [differs]

/-- A buffer with the given content. -/
def contentBuffer (cache : IncludeCache) : Buffer :=
  ⟨path, content, Script.lines content, Script.includes (Script.lines content), cache⟩

/-- Whether new content for the buffer at a path refers to the same files as before. -/
def keepsFiles : Bool := (workspace.buffer? path).any fun old =>
  Include.sameFiles old.includes (Script.includes (Script.lines content))

theorem buffer?_update_self {workspace : Workspace} {path content : Text} {buffer : Buffer}
    (h : (workspace.update tree path content).buffer? path = some buffer) :
    (workspace.keepsFiles path content = true ∧ ∃ old, workspace.buffer? path = some old ∧
      buffer = contentBuffer path content old.cache ∧
      Include.sameFiles old.includes buffer.includes = true) ∨
    (workspace.keepsFiles path content = false ∧ ∃ cache : IncludeCache,
      buffer = contentBuffer path content
        (cache.rebuild tree path (Script.includes (Script.lines content))) ∧
      (cache = .new workspace.config.modulesDir ∨
        ∃ old, workspace.buffer? path = some old ∧ cache = old.cache)) := by
  unfold keepsFiles
  simp only [update, buffer?_put, if_true, Option.some.injEq] at h
  cases hold : workspace.buffer? path with
  | none =>
    rw [hold] at h
    exact .inr ⟨rfl, _, h.symm, .inl rfl⟩
  | some old =>
    rw [hold] at h
    simp only at h
    split at h
    · next same =>
      subst h
      exact .inl ⟨same, old, rfl, rfl, same⟩
    · next differs => exact .inr ⟨Bool.eq_false_iff.mpr differs, _, h.symm, .inr ⟨old, rfl, rfl⟩⟩

theorem buffer?_update_of_ne {path other : Text} (h : other ≠ path) :
    (workspace.update tree path content).buffer? other = workspace.buffer? other := by
  simp [update, buffer?_put, h.symm]

theorem buffer?_refresh : (workspace.refresh tree path).buffer? other =
    if path = other then (workspace.buffer? path).map fun buffer =>
      { buffer with cache := buffer.cache.rebuild tree path buffer.includes }
    else workspace.buffer? other := by
  unfold refresh
  cases hold : workspace.buffer? path with
  | none =>
    by_cases same : path = other
    · subst same
      simp [hold]
    · simp [same]
  | some old => simp [buffer?_put, path_of_buffer? hold]

end Buffers

/-- One change of the buffer at one path. -/
inductive Edit where
  | update (path content : Text)
  | close (path : Text)
  | refresh (path : Text)

namespace Edit

def path : Edit → Text
  | .update path _ | .close path | .refresh path => path

def apply (tree : FileTree) (workspace : Workspace) : Edit → Workspace
  | .update path content => workspace.update tree path content
  | .close path => workspace.remove path
  | .refresh path => workspace.refresh tree path

/-- Whether an edit rebuilds the cache of its buffer. -/
def rebuilds (workspace : Workspace) : Edit → Bool
  | .update path content => !workspace.keepsFiles path content
  | .close _ => false
  | .refresh path => (workspace.buffer? path).isSome

theorem config_apply (tree : FileTree) (workspace : Workspace) (edit : Edit) :
    (edit.apply tree workspace).config = workspace.config := by
  cases edit with
  | update | close => rfl
  | refresh path =>
    simp only [apply, Workspace.refresh]
    cases workspace.buffer? path <;> rfl

variable {tree : FileTree} {workspace : Workspace} {edit : Edit} {buffer : Buffer} {other : Text}

/-- An edit leaves all other buffers alone. -/
theorem buffer?_apply_of_ne (h : other ≠ edit.path) :
    (edit.apply tree workspace).buffer? other = workspace.buffer? other := by
  cases edit with
  | update path content => exact workspace.buffer?_update_of_ne tree content h
  | close path => exact (workspace.buffer?_remove path other).trans (if_neg h.symm)
  | refresh path => exact (workspace.buffer?_refresh tree path other).trans (if_neg h.symm)

/-- A buffer has the cache that it had before an edit of it, or one rebuilt just now. -/
theorem apply_cases (h : (edit.apply tree workspace).buffer? edit.path = some buffer)
    (before : ∀ old, workspace.buffer? edit.path = some old →
      ∃ earlier, old.BuiltFrom workspace.config.modulesDir earlier edit.path) :
    (edit.rebuilds workspace = false ∧ ∃ old, workspace.buffer? edit.path = some old ∧
      buffer.cache = old.cache ∧
      ∀ earlier, old.BuiltFrom workspace.config.modulesDir earlier edit.path →
        buffer.BuiltFrom workspace.config.modulesDir earlier edit.path) ∨
    (edit.rebuilds workspace = true ∧
      buffer.BuiltFrom workspace.config.modulesDir tree edit.path) := by
  cases edit with
  | update path content =>
    obtain ⟨keeps, old, hold, rfl, same⟩ | ⟨differs, cache, rfl, origin⟩ :=
      buffer?_update_self tree h
    · refine .inl ⟨by simp [rebuilds, keeps], old, hold, rfl, fun earlier built => ?_⟩
      obtain ⟨_, _, includes, sameBefore, cache⟩ := built
      exact ⟨rfl, rfl, includes, Include.sameFiles_trans sameBefore same, cache⟩
    · refine .inr ⟨by simp [rebuilds, differs], rfl, rfl, _, Include.sameFiles_refl _, ?_⟩
      obtain rfl | ⟨old, hold, rfl⟩ := origin
      · rfl
      · obtain ⟨_, built⟩ := before old hold
        rw [← built.modulesDir_cache]
        rfl
  | close path =>
    simp only [apply, Edit.path, buffer?_remove, if_true] at h
    cases h
  | refresh path =>
    simp only [apply, Edit.path, buffer?_refresh, if_true] at h
    obtain ⟨old, hold, rfl⟩ := Option.map_eq_some_iff.mp h
    obtain ⟨_, built⟩ := before old hold
    exact .inr ⟨by simp [rebuilds, hold], built.rebuild tree⟩

end Edit

end Workspace

end CMakeSense
