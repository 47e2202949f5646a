import CMakeSense.Proofs.FileTree.Times
import CMakeSense.Proofs.Text.Path

/-! The names of entries. In a proper tree every entry has a place of its own, and the names that
lead to it can be spelled in paths (`FileTree.Proper`). Writing under such names, deleting and
setting times keep a tree proper, so a listed entry is the one that its place leads to. -/

namespace CMakeSense.FileTree

/-- A name that an entry can have. -/
structure IsEntryName (name : Text) : Prop extends Path.IsName name where
  short : name.length ≤ 255
  valid : 0 ∉ name

instance (name : Text) : Decidable (IsEntryName name) :=
  decidable_of_iff (Path.IsName name ∧ name.length ≤ 255 ∧ 0 ∉ name)
    ⟨fun ⟨a, b, c⟩ => ⟨a, b, c⟩, fun ⟨a, b, c⟩ => ⟨a, b, c⟩⟩

/-- A tree whose entries have places of their own and names that paths can spell. -/
structure Proper (tree : FileTree) : Prop where
  distinct : (tree.entries.map (·.1)).Nodup
  names : ∀ entry ∈ tree.entries, ∀ name ∈ entry.1, IsEntryName name

theorem mem_of_lookup {α β : Type} [BEq α] [LawfulBEq α] {entries : List (α × β)} {key : α}
    {value : β} (h : entries.lookup key = some value) : (key, value) ∈ entries := by
  obtain ⟨before, after, rfl, _⟩ := List.lookup_eq_some_iff.mp h
  simp

namespace Proper

variable {tree new : FileTree} {place names : Place}

theorem insert (proper : tree.Proper) (named : ∀ name ∈ place, IsEntryName name)
    (entry : FileEntry) : (tree.insert place entry).Proper := by
  constructor
  · rw [FileTree.insert, List.map_cons, List.nodup_cons]
    refine ⟨?_, (List.filter_sublist.map _).nodup proper.distinct⟩
    simp
  · intro other member
    rcases List.mem_cons.mp member with rfl | kept
    · exact named
    · exact proper.names other (List.mem_filter.mp kept).1

theorem turn (proper : tree.Proper) (place : Place) : (tree.turn place).Proper := by
  have advanced : Proper { tree with clock := tree.clock + 1 } := ⟨proper.distinct, proper.names⟩
  simp only [FileTree.turn]
  split
  · next found => exact advanced.insert (proper.names _ (mem_of_lookup found)) _
  · exact advanced

theorem create (proper : tree.Proper) (named : ∀ name ∈ place, IsEntryName name)
    (entry : FileEntry) : (tree.create place entry).Proper :=
  (proper.turn _).insert named entry

theorem makeDirectories? (proper : tree.Proper) (named : ∀ name ∈ place ++ names, IsEntryName name)
    (h : tree.makeDirectories? place names = some new) : new.Proper := by
  induction names generalizing tree place with
  | nil =>
    cases h
    exact proper
  | cons name names ih =>
    have named' : ∀ other ∈ place ++ [name] ++ names, IsEntryName other := by simpa using named
    simp only [FileTree.makeDirectories?] at h
    split at h
    · exact ih proper named' h
    · cases h
    · refine ih (proper.create (fun other member => named' other ?_) _) named' h
      exact List.mem_append_left _ member

end Proper

/-- The path leads through names of entries below the working directory. -/
def Names (tree : FileTree) (path : Text) : Prop :=
  ∀ name ∈ tree.placeBelow path, name.length ≤ 255 ∧ 0 ∉ name

instance (tree : FileTree) (path : Text) : Decidable (tree.Names path) :=
  inferInstanceAs (Decidable (∀ name ∈ tree.placeBelow path, name.length ≤ 255 ∧ 0 ∉ name))

theorem Names.isEntryName {tree : FileTree} {path : Text} (names : tree.Names path) :
    ∀ name ∈ tree.placeBelow path, IsEntryName name := by
  intro name member
  have absolute : Path.isAbsolute (Path.join tree.workingPath path) = true := by
    have nonempty : tree.workingPath ≠ [] := List.cons_ne_nil _ _
    rw [Path.join, if_neg nonempty, Path.clean, Path.isAbsolute_append nonempty]
    rfl
  exact ⟨Path.isName_of_mem_components absolute member, (names name member).1,
    (names name member).2⟩

namespace Proper

variable {tree : FileTree} {path : Text}

theorem empty {working : Place} (named : ∀ name ∈ working, IsEntryName name) :
    (FileTree.empty working).Proper := by
  have bare : Proper { working, entries := [] } := ⟨List.nodup_nil, nofun⟩
  unfold FileTree.empty
  simp only
  cases made : FileTree.makeDirectories? { working, entries := [] } [] working with
  | none => exact bare
  | some new => exact bare.makeDirectories? named made

theorem makeDirectory (proper : tree.Proper) (names : tree.Names path) :
    (tree.makeDirectory path).Proper := by
  unfold FileTree.makeDirectory
  cases made : tree.makeDirectories? [] (tree.placeBelow path) with
  | none => exact proper
  | some new => exact proper.makeDirectories? names.isEntryName made

theorem writeFile (proper : tree.Proper) (names : tree.Names path) (content : Text)
    (second : Int) : (tree.writeFile path content second).Proper := by
  unfold FileTree.writeFile
  simp only
  split
  · exact proper
  next made =>
  have above : ∀ name ∈ [] ++ (tree.placeBelow path).dropLast, IsEntryName name :=
    fun name member => names.isEntryName name (List.dropLast_subset _ member)
  have proper := proper.makeDirectories? above made
  split
  · exact proper
  · exact proper.insert names.isEntryName _
  · exact proper.create names.isEntryName _

theorem write (proper : tree.Proper) (names : tree.Names path) (content : Text) (second : Int) :
    (tree.write path content second).Proper := by
  unfold FileTree.write
  split
  · exact proper.makeDirectory names
  · exact proper.writeFile names content second

theorem touch (proper : tree.Proper) (path : Text) (second : Int) :
    (tree.touch path second).Proper := by
  unfold FileTree.touch
  simp only
  split
  · next found => exact proper.insert (proper.names _ (mem_of_lookup found)) _
  · exact proper

theorem delete (proper : tree.Proper) (path : Text) : (tree.delete path).Proper := by
  have rest : Proper { tree with
      entries := tree.entries.filter fun entry =>
        !(tree.placeBelow path).isPrefixOf entry.1 } :=
    ⟨(List.filter_sublist.map _).nodup proper.distinct,
      fun entry member => proper.names entry (List.mem_filter.mp member).1⟩
  unfold FileTree.delete
  simp only
  split
  · exact rest.turn _
  · exact rest

end Proper

/-- Trees that are made by editing, under names that entries can have. -/
inductive Made : FileTree → Prop where
  | empty {working : Place} (named : ∀ name ∈ working, IsEntryName name) : Made (.empty working)
  | write {tree : FileTree} {path : Text} (made : Made tree) (names : tree.Names path)
      (content : Text) (second : Int) : Made (tree.write path content second)
  | touch {tree : FileTree} (made : Made tree) (path : Text) (second : Int) :
      Made (tree.touch path second)
  | delete {tree : FileTree} (made : Made tree) (path : Text) : Made (tree.delete path)

theorem Made.proper {tree : FileTree} (made : Made tree) : tree.Proper := by
  induction made with
  | empty named => exact .empty named
  | write _ names content second ih => exact ih.write names content second
  | touch _ path second ih => exact ih.touch path second
  | delete _ path ih => exact ih.delete path

end CMakeSense.FileTree
