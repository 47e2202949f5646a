import CMakeSense.Proofs.Workspace.Resolution
import CMakeSense.Proofs.Workspace.Session
import Mathlib.Data.List.Infix
import Mathlib.Data.List.Nodup

/-! Which files a cache holds, and which buffers hold a file. A rebuild sorts the references into
those that depend on a variable, those that lead to no file and those that lead to a file, however
many of them lead to the same one: a cache has one entry for each file, at the place of the first
reference to it (`Text.pairwise_distinct_filterMap`). The map from files to the buffers that include
them is read off the caches without counting a buffer twice (`Workspace.ownersOf_eq_filter`). -/

namespace CMakeSense

namespace Text

theorem occursIn_iff {p t : Text} : occursIn p t = true ↔ p <:+: t := by
  rw [occursIn]
  induction t with
  | nil => cases p <;> simp [indexOf?]
  | cons c t ih =>
    rw [List.infix_cons_iff, ← ih, indexOf?, ← List.isPrefixOf_iff_prefix]
    split
    · next starts => simp [starts]
    · next starts => simp [starts]

/-- The first occurrences stand in the order of the members that they come from. -/
theorem pairwise_distinct_filterMap {α : Type} (f : α → Option Text) (xs : List α) :
    (distinct (xs.filterMap f)).Pairwise fun t u =>
      xs.findIdx (fun x => f x = some t) < xs.findIdx (fun x => f x = some u) := by
  rw [distinct, distinctBy]
  generalize ([] : List Text) = seen
  -- Texts that have been seen are left out from here on, so all members are found later than `x`.
  induction xs generalizing seen with
  | nil => exact List.Pairwise.nil
  | cons x xs ih =>
    have later {t : Text} (other : f x ≠ some t) :
        (x :: xs).findIdx (fun x => f x = some t) = xs.findIdx (fun x => f x = some t) + 1 := by
      simp [List.findIdx_cons, other]
    have shift {seen : List Text} (unseen : ∀ t, f x = some t → t ∈ seen) :
        (distinctBy.go id seen (xs.filterMap f)).Pairwise fun t u =>
          (x :: xs).findIdx (fun x => f x = some t) <
            (x :: xs).findIdx (fun x => f x = some u) := by
      refine (ih seen).imp_of_mem fun {t u} ht hu before => ?_
      rw [later fun here => (mem_distinctBy_go.mp ht).2 (unseen t here),
        later fun here => (mem_distinctBy_go.mp hu).2 (unseen u here)]
      exact Nat.succ_lt_succ before
    cases found : f x with
    | none =>
      rw [List.filterMap_cons_none found]
      exact shift fun t here => by simp [found] at here
    | some t =>
      rw [List.filterMap_cons_some found, distinctBy.go]
      split
      · next known =>
        refine shift fun u here => ?_
        obtain rfl : t = u := Option.some.inj (found.symm.trans here)
        exact known
      · refine List.Pairwise.cons (fun u hu => ?_) (shift fun u here => ?_)
        · have first : (x :: xs).findIdx (fun x => f x = some t) = 0 := by
            simp [List.findIdx_cons, found]
          rw [first, later]
          · exact Nat.succ_pos _
          · intro here
            obtain rfl : t = u := Option.some.inj (found.symm.trans here)
            exact (mem_distinctBy_go.mp hu).2 List.mem_cons_self
        · obtain rfl : t = u := Option.some.inj (found.symm.trans here)
          exact List.mem_cons_self

theorem nodup_distinct (ts : List Text) : (distinct ts).Nodup := by
  have ordered := pairwise_distinct_filterMap some ts
  rw [List.filterMap_some] at ordered
  refine ordered.imp fun before same => ?_
  rw [same] at before
  exact Nat.lt_irrefl _ before

theorem mem_sort {t : Text} {ts : List Text} : t ∈ sort ts ↔ t ∈ ts := List.mem_mergeSort

theorem pairwise_sort {ts : List Text} (nodup : ts.Nodup) : (sort ts).Pairwise (· < ·) := by
  have ordered : (sort ts).Pairwise fun t u => decide (t ≤ u) = true := by
    refine List.pairwise_mergeSort (fun t u v tu uv => ?_) (fun t u => ?_) ts
    · exact decide_eq_true (List.le_trans (of_decide_eq_true tu) (of_decide_eq_true uv))
    · simpa using List.le_total t u
  have distinct : (sort ts).Nodup := (List.mergeSort_perm ts _).nodup_iff.mpr nodup
  refine (ordered.and distinct).imp fun ⟨le, ne⟩ => ?_
  exact Std.lt_of_le_of_ne (of_decide_eq_true le) ne

end Text

namespace Include

/-- A reference is dynamic when a variable is to be filled in for a part of its name. -/
theorem isDynamic_iff {reference : Include} :
    reference.isDynamic = true ↔ utf8 "$\x7b" <:+: reference.name := Text.occursIn_iff

end Include

namespace IncludeCache

section Rebuild
variable {cache : IncludeCache} {tree : FileTree} {path : Text} {includes : List Include}

theorem Entry.read?_eq_some_iff {file : Text} {entry : Entry} : Entry.read? tree file = some entry ↔
    ∃ content, tree.readFile file = .ok content ∧ entry = ofContent file content := by
  rw [read?]
  cases tree.readFile file with
  | error cause => simp [Except.toOption]
  | ok content => simp [Except.toOption, eq_comm]

theorem mem_unresolved_rebuild {reference : Include} :
    reference ∈ (cache.rebuild tree path includes).unresolved ↔ reference ∈ includes ∧
      cache.resolve? tree (Path.dir path) reference = none ∧
      ¬ utf8 "$\x7b" <:+: reference.name := by
  simp [rebuild, ← Include.isDynamic_iff]

/-- Every entry is there for a reference and holds what its file defines. -/
theorem of_mem_entries_rebuild {entry : Entry}
    (h : entry ∈ (cache.rebuild tree path includes).entries) :
    (∃ reference ∈ includes,
      cache.resolve? tree (Path.dir path) reference = some entry.path) ∧
    ∃ content, tree.readFile entry.path = .ok content ∧
      entry = Entry.ofContent entry.path content := by
  obtain ⟨file, member, read⟩ := List.mem_filterMap.mp h
  obtain ⟨content, readFile, rfl⟩ := Entry.read?_eq_some_iff.mp read
  exact ⟨List.mem_filterMap.mp (Text.mem_distinct.mp member), content, readFile, rfl⟩

end Rebuild

end IncludeCache

namespace Workspace

/-- No two buffers have the same path. -/
def Keyed (workspace : Workspace) : Prop := (workspace.buffers.map (·.path)).Nodup

namespace Keyed

variable {workspace : Workspace}

theorem remove (keyed : workspace.Keyed) (path : Text) : (workspace.remove path).Keyed :=
  List.Nodup.sublist (List.filter_sublist.map _) keyed

theorem put (keyed : workspace.Keyed) (buffer : Buffer) : (workspace.put buffer).Keyed := by
  have rest := keyed.remove buffer.path
  simp only [Keyed, Workspace.put, List.map_append, List.map_singleton]
  refine List.nodup_append.mpr ⟨rest, List.nodup_singleton _, ?_⟩
  rintro _ member _ here rfl
  obtain ⟨other, kept, same⟩ := List.mem_map.mp member
  have differs : other.path ≠ buffer.path := of_decide_eq_true (List.mem_filter.mp kept).2
  exact differs (same.trans (List.mem_singleton.mp here))

theorem apply (keyed : workspace.Keyed) (tree : FileTree) (edit : Edit) :
    (edit.apply tree workspace).Keyed := by
  cases edit with
  | update path content => exact keyed.put _
  | close path => exact keyed.remove path
  | refresh path =>
    simp only [Edit.apply, Workspace.refresh]
    split
    · exact keyed.put _
    · exact keyed

end Keyed

section Owners
variable (workspace : Workspace)

/-- The files in the cache of a buffer. -/
def filesOf (owner : Text) : List Text := ((workspace.buffer? owner).map (·.cache.paths)).getD []

/-- Each file in a cache with the buffer that has the cache, buffer by buffer. -/
def inclusions : List (Text × Text) :=
  workspace.paths.flatMap fun owner => (workspace.filesOf owner).map (·, owner)

theorem mem_filesOf {workspace : Workspace} {owner file : Text} :
    file ∈ workspace.filesOf owner ↔
      ∃ buffer, workspace.buffer? owner = some buffer ∧ file ∈ buffer.cache.paths := by
  rw [filesOf]
  cases workspace.buffer? owner <;> simp

theorem ownersOf_eq (file : Text) : workspace.ownersOf file =
    workspace.paths.filter fun owner => file ∈ workspace.filesOf owner := by
  refine List.filter_congr fun owner _ => ?_
  rw [filesOf]
  cases workspace.buffer? owner <;> simp

theorem mem_ownersOf {workspace : Workspace} {owner file : Text} :
    owner ∈ workspace.ownersOf file ↔
      ∃ buffer, workspace.buffer? owner = some buffer ∧ file ∈ buffer.cache.paths := by
  rw [ownersOf_eq, List.mem_filter, decide_eq_true_iff, mem_filesOf]
  refine ⟨And.right, fun included => ⟨?_, included⟩⟩
  obtain ⟨buffer, found, _⟩ := included
  exact mem_paths found

theorem includedBy_eq : workspace.includedBy =
    (Text.distinct (workspace.inclusions.map (·.1))).map fun file =>
      (file, workspace.ownersOf file) := by
  have files : workspace.inclusions.map (·.1) = workspace.paths.flatMap workspace.filesOf := by
    simp only [inclusions, List.map_flatMap, List.map_map]
    exact congrArg (List.flatMap · workspace.paths) (funext fun owner => List.map_id _)
  rw [files]
  rfl

theorem map_fst_includedBy : workspace.includedBy.map (·.1) =
    Text.distinct (workspace.inclusions.map (·.1)) := by
  rw [includedBy_eq, List.map_map]
  exact List.map_id _

theorem mem_map_inclusions {file : Text} :
    file ∈ workspace.inclusions.map (·.1) ↔ workspace.ownersOf file ≠ [] := by
  simp only [inclusions, List.mem_map, List.mem_flatMap, mem_filesOf]
  constructor
  · rintro ⟨_, ⟨owner, _, _, included, rfl⟩, rfl⟩
    exact List.ne_nil_of_mem (mem_ownersOf.mpr included)
  · intro owned
    obtain ⟨owner, member⟩ := List.exists_mem_of_ne_nil _ owned
    obtain ⟨buffer, found, included⟩ := mem_ownersOf.mp member
    exact ⟨(file, owner), ⟨owner, mem_paths found, file, ⟨buffer, found, included⟩, rfl⟩, rfl⟩

theorem mem_includedBy {workspace : Workspace} {file : Text} {owners : List Text} :
    (file, owners) ∈ workspace.includedBy ↔ owners ≠ [] ∧ owners = workspace.ownersOf file := by
  simp only [includedBy_eq, List.mem_map, Text.mem_distinct, Prod.mk.injEq]
  constructor
  · rintro ⟨_, ⟨inclusion, member, rfl⟩, rfl, rfl⟩
    exact ⟨workspace.mem_map_inclusions.mp (List.mem_map_of_mem member), rfl⟩
  · rintro ⟨owned, rfl⟩
    exact ⟨file, List.mem_map.mp (workspace.mem_map_inclusions.mpr owned), rfl, rfl⟩

end Owners

end Workspace

namespace Session

end Session

namespace IncludeCache

end IncludeCache

end CMakeSense
