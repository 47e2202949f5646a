import CMakeSense.Proofs.FileTree.Times
import CMakeSense.Proofs.Workspace.Inclusion

/-! What one look of the watcher finds. The look comes to one included file after the other, takes
its time down or drops it, and drops the times of all other files at the end. As it comes to no file
twice, it compares each one with its time at the last look (`Watcher.mem_stale_foldl_visit`). So a
look leaves the present times of the included files (`Watcher.lookup_times_scan`) and rebuilds the
caches of those buffers that are stale (`Watcher.mem_rebuilt`). -/

namespace CMakeSense.Watcher

variable {watcher other : Watcher} {workspace : Workspace} {tree : FileTree} {path file : Text}
  {buffer : Buffer}

/-- Whether a file is gone or was modified since the last look. -/
def hasChanged (watcher : Watcher) (tree : FileTree) (file : Text) : Bool :=
  match tree.find? file with
  | none => true
  | some entry =>
    match watcher.times.lookup file with
    | some last => last < entry.modified
    | none => false

/-- Whether the cache of a buffer may be out of date. -/
def isStale (watcher : Watcher) (tree : FileTree) (buffer : Buffer) : Bool :=
  buffer.cache.paths.any (watcher.hasChanged tree) || buffer.cache.hasAppeared tree

theorem hasChanged_congr (same : watcher.times.lookup file = other.times.lookup file) :
    watcher.hasChanged tree file = other.hasChanged tree file := by
  rw [hasChanged, hasChanged, same]

theorem find?_of_not_hasChanged (h : watcher.hasChanged tree file = false) :
    ∃ entry, tree.find? file = some entry ∧
      ∀ last, watcher.times.lookup file = some last → entry.modified ≤ last := by
  unfold hasChanged at h
  cases found : tree.find? file with
  | none =>
    rw [found] at h
    cases h
  | some entry =>
    refine ⟨entry, rfl, fun last known => ?_⟩
    rw [found, known] at h
    exact Int.not_lt.mp (of_decide_eq_false h)

theorem not_hasChanged_of_not_isStale (h : watcher.isStale tree buffer = false)
    (member : file ∈ buffer.cache.paths) : watcher.hasChanged tree file = false := by
  have unchanged := (Bool.or_eq_false_iff.mp h).1
  exact Bool.eq_false_iff.mpr (List.any_eq_false.mp unchanged file member)

section Times
variable (watcher : Watcher) (file : Text)

theorem lookup_dropTime (other : Text) : (watcher.dropTime file).times.lookup other =
    if other = file then none else watcher.times.lookup other := by
  refine (lookup_filter (· ≠ file) watcher.times other).trans ?_
  by_cases same : other = file <;> simp [same]

theorem lookup_setTime (time : Stamp) (other : Text) :
    (watcher.setTime file time).times.lookup other =
      if other = file then some time else watcher.times.lookup other :=
  lookup_cons_filter_ne watcher.times file other time

theorem lookup_sweep (files : List Text) : (watcher.sweep files).times.lookup file =
    if file ∈ files then watcher.times.lookup file else none := by
  refine (lookup_filter (files.contains ·) watcher.times file).trans ?_
  simp only [List.contains_iff_mem]

end Times

section Visit
variable {findings : Findings} {owners : List Text} {included : List (Text × List Text)}

/-- Coming to a file leaves its present time. -/
theorem lookup_visit (other : Text) :
    (visit tree findings (file, owners)).watcher.times.lookup other =
      if other = file then (tree.find? file).map (·.modified)
      else findings.watcher.times.lookup other := by
  cases found : tree.find? file with
  | none =>
    simp only [visit, found]
    exact lookup_dropTime ..
  | some entry =>
    simp only [visit, found]
    have set := findings.watcher.lookup_setTime file entry.modified other
    split
    · split <;> exact set
    · exact set

theorem stale_visit : (visit tree findings (file, owners)).stale =
    if findings.watcher.hasChanged tree file then findings.stale ++ owners else findings.stale := by
  cases found : tree.find? file with
  | none => simp only [visit, hasChanged, found, if_true]
  | some entry =>
    cases known : findings.watcher.times.lookup file with
    | none => simp only [visit, hasChanged, found, known, Bool.false_eq_true, if_false]
    | some last =>
      simp only [visit, hasChanged, found, known, decide_eq_true_eq]
      split <;> rfl

theorem lookup_foldl_visit :
    (included.foldl (visit tree) findings).watcher.times.lookup file =
      if file ∈ included.map (·.1) then (tree.find? file).map (·.modified)
      else findings.watcher.times.lookup file := by
  induction included generalizing findings with
  | nil => rfl
  | cons first rest ih =>
    rw [List.foldl_cons, ih, lookup_visit, List.map_cons]
    by_cases later : file ∈ rest.map (·.1)
    · rw [if_pos later, if_pos (List.mem_cons_of_mem _ later)]
    · rw [if_neg later]
      by_cases same : file = first.1
      · subst same
        rw [if_pos rfl, if_pos List.mem_cons_self]
      · rw [if_neg same, if_neg (by simp [same, later])]

/-- The caches found stale are those of the buffers that include a changed file. What was taken down
for one file does not matter to the others. -/
theorem mem_stale_foldl_visit (once : (included.map (·.1)).Nodup) :
    path ∈ (included.foldl (visit tree) findings).stale ↔ path ∈ findings.stale ∨
      ∃ file owners, (file, owners) ∈ included ∧ path ∈ owners ∧
        findings.watcher.hasChanged tree file = true := by
  induction included generalizing findings with
  | nil => simp
  | cons first rest ih =>
    obtain ⟨file, owners⟩ := first
    obtain ⟨apart, once⟩ := List.nodup_cons.mp once
    have kept {other : Text} {others : List Text} (member : (other, others) ∈ rest) :
        (visit tree findings (file, owners)).watcher.hasChanged tree other =
          findings.watcher.hasChanged tree other := by
      refine hasChanged_congr ((lookup_visit other).trans (if_neg ?_))
      rintro rfl
      exact apart (List.mem_map.mpr ⟨_, member, rfl⟩)
    rw [List.foldl_cons, ih once, stale_visit]
    constructor
    · rintro (stale | ⟨other, others, member, owner, changed⟩)
      · split at stale
        · next changed =>
          refine (List.mem_append.mp stale).imp_right fun owner => ?_
          exact ⟨file, owners, List.mem_cons_self, owner, changed⟩
        · exact .inl stale
      · exact .inr ⟨other, others, List.mem_cons_of_mem _ member, owner, kept member ▸ changed⟩
    · rintro (stale | ⟨other, others, member, owner, changed⟩)
      · refine .inl ?_
        split
        · exact List.mem_append_left _ stale
        · exact stale
      · rcases List.mem_cons.mp member with here | member
        · cases here
          rw [if_pos changed]
          exact .inl (List.mem_append_right _ owner)
        · exact .inr ⟨other, others, member, owner, (kept member).trans changed⟩

end Visit

/-- What a look takes down for a file: its present time, if it is in a cache and there. -/
def timeOf? (workspace : Workspace) (tree : FileTree) (file : Text) : Option Stamp :=
  if workspace.ownersOf file = [] then none else (tree.find? file).map (·.modified)

/-- Whatever the watcher knew before, a look leaves the present times of the included files. -/
theorem lookup_times_scan (watcher : Watcher) (workspace : Workspace) (tree : FileTree)
    (file : Text) : (watcher.scan workspace tree).watcher.times.lookup file =
      timeOf? workspace tree file := by
  have included : file ∈ workspace.includedBy.map (·.1) ↔ workspace.ownersOf file ≠ [] := by
    rw [workspace.map_fst_includedBy, Text.mem_distinct, workspace.mem_map_inclusions]
  simp only [scan]
  rw [lookup_sweep, lookup_foldl_visit, timeOf?]
  by_cases owned : workspace.ownersOf file = []
  · rw [if_neg fun member => included.mp member owned, if_pos owned]
  · rw [if_pos (included.mpr owned), if_pos (included.mpr owned), if_neg owned]

theorem timeOf?_of_mem (loaded : workspace.buffer? path = some buffer)
    (member : file ∈ buffer.cache.paths) :
    timeOf? workspace tree file = (tree.find? file).map (·.modified) :=
  if_neg (List.ne_nil_of_mem (Workspace.mem_ownersOf.mpr ⟨buffer, loaded, member⟩))

/-- A look rebuilds the caches of the buffers that are stale by what the watcher knew before. -/
theorem mem_rebuilt : path ∈ (watcher.scan workspace tree).rebuilt ↔
    ∃ buffer, workspace.buffer? path = some buffer ∧ watcher.isStale tree buffer = true := by
  have once : (workspace.includedBy.map (·.1)).Nodup := by
    rw [workspace.map_fst_includedBy]
    exact Text.nodup_distinct _
  simp only [scan, Text.mem_sort, Text.mem_distinct, List.mem_append, mem_stale_foldl_visit once,
    List.mem_filter, Option.any_eq_true, List.not_mem_nil, false_or, isStale, Bool.or_eq_true,
    List.any_eq_true]
  constructor
  · rintro (⟨file, owners, member, owner, changed⟩ | ⟨_, buffer, loaded, appeared⟩)
    · rw [(Workspace.mem_includedBy.mp member).2] at owner
      obtain ⟨buffer, loaded, listed⟩ := Workspace.mem_ownersOf.mp owner
      exact ⟨buffer, loaded, .inl ⟨file, listed, changed⟩⟩
    · exact ⟨buffer, loaded, .inr appeared⟩
  · rintro ⟨buffer, loaded, ⟨file, listed, changed⟩ | appeared⟩
    · have owner := Workspace.mem_ownersOf.mpr ⟨buffer, loaded, listed⟩
      have member := Workspace.mem_includedBy.mpr ⟨List.ne_nil_of_mem owner, rfl⟩
      exact .inl ⟨file, _, member, owner, changed⟩
    · exact .inr ⟨Workspace.mem_paths loaded, buffer, loaded, appeared⟩

/-- A look passes over the buffers that it does not find stale. -/
theorem isStale_of_notMem_rebuilt (loaded : workspace.buffer? path = some buffer)
    (passed : path ∉ (watcher.scan workspace tree).rebuilt) :
    watcher.isStale tree buffer = false :=
  Bool.eq_false_iff.mpr fun stale => passed (mem_rebuilt.mpr ⟨buffer, loaded, stale⟩)

theorem pairwise_rebuilt (watcher : Watcher) (workspace : Workspace) (tree : FileTree) :
    (watcher.scan workspace tree).rebuilt.Pairwise (· < ·) :=
  Text.pairwise_sort (Text.nodup_distinct _)

end CMakeSense.Watcher
