import CMakeSense.FileTree.Basic

/-! Times of modification. A write or a deletion makes no entries but directories and the file that
is written (`FileTree.Edited`). So if files are written at ever later seconds, a file that is dated
no later than some second has been there since (`FileTree.Keeps`), and what stands where a file
stood, with a time no later than that of the file, is the file itself or a directory
(`FileTree.Keeps.eq_or_directory`). A path leads to one place, if it leads anywhere, however the
tree changes (`FileTree.entry?_target`). -/

namespace CMakeSense

theorem lookup_filter {α β : Type} [BEq α] [LawfulBEq α] (p : α → Bool)
    (entries : List (α × β)) (key : α) :
    (entries.filter fun entry => p entry.1).lookup key =
      if p key then entries.lookup key else none := by
  induction entries with
  | nil => simp
  | cons entry entries ih =>
    obtain ⟨other, value⟩ := entry
    by_cases same : key = other
    · subst same
      cases hp : p key <;> simp [hp, ih]
    · have differs : (key == other) = false := beq_eq_false_iff_ne.mpr same
      cases hp : p other <;> simp [List.lookup_cons, hp, differs, ih]

/-- Putting an entry in place of the one with its key leaves all other entries. -/
theorem lookup_cons_filter_ne {α β : Type} [BEq α] [LawfulBEq α] [DecidableEq α]
    (entries : List (α × β)) (key other : α) (value : β) :
    ((key, value) :: entries.filter (·.1 ≠ key)).lookup other =
      if other = key then some value else entries.lookup other := by
  by_cases same : other = key
  · simp [same]
  · have differs : (other == key) = false := beq_eq_false_iff_ne.mpr same
    simp only [List.lookup_cons, differs, if_neg same]
    refine (lookup_filter (· ≠ key) entries other).trans ?_
    simp [same]

namespace FileTree

theorem lookup_insert (tree : FileTree) (place other : Place) (entry : FileEntry) :
    (tree.insert place entry).entries.lookup other =
      if other = place then some entry else tree.entries.lookup other :=
  lookup_cons_filter_ne tree.entries place other entry

/-- What an edit of the tree at a second can bring about: entries go, directories are made or get
new times, and a file is written. -/
structure Edited (second : Stamp) (old new : FileTree) : Prop where
  working : new.working = old.working
  entry : ∀ {place : Place} {entry : FileEntry}, new.entries.lookup place = some entry →
    old.entries.lookup place = some entry ∨ (∃ time, entry = .directory time) ∨
      ∃ content, entry = .file content second

namespace Edited

variable {second : Stamp} {old mid new : FileTree}

theorem refl (second : Stamp) (tree : FileTree) : Edited second tree tree := ⟨rfl, .inl⟩

theorem insert (edited : Edited second old mid) (place : Place) {entry : FileEntry}
    (made : (∃ time, entry = .directory time) ∨ ∃ content, entry = .file content second) :
    Edited second old (mid.insert place entry) := by
  refine ⟨edited.working, fun {other found} h => ?_⟩
  rw [lookup_insert] at h
  split at h
  · cases h
    exact .inr made
  · exact edited.entry h

theorem turn (edited : Edited second old mid) (place : Place) :
    Edited second old (mid.turn place) := by
  have advanced : Edited second old { mid with clock := mid.clock + 1 } :=
    ⟨edited.working, edited.entry⟩
  simp only [FileTree.turn]
  split
  · exact advanced.insert place (.inl ⟨_, rfl⟩)
  · exact advanced

theorem create (edited : Edited second old mid) (place : Place) {entry : FileEntry}
    (made : (∃ time, entry = .directory time) ∨ ∃ content, entry = .file content second) :
    Edited second old (mid.create place entry) :=
  (edited.turn _).insert place made

theorem makeDirectories? (edited : Edited second old mid) {place names : Place}
    (h : mid.makeDirectories? place names = some new) : Edited second old new := by
  induction names generalizing mid place with
  | nil =>
    cases h
    exact edited
  | cons name names ih =>
    simp only [FileTree.makeDirectories?] at h
    split at h
    · exact ih edited h
    · cases h
    · exact ih (edited.create _ (.inl ⟨_, rfl⟩)) h

end Edited

theorem edited_makeDirectory (tree : FileTree) (path : Text) (second : Stamp) :
    Edited second tree (tree.makeDirectory path) := by
  unfold makeDirectory
  cases made : tree.makeDirectories? [] (tree.placeBelow path) with
  | none => exact .refl second tree
  | some new => exact (Edited.refl second tree).makeDirectories? made

theorem edited_writeFile (tree : FileTree) (path content : Text) (second : Stamp) :
    Edited second tree (tree.writeFile path content second) := by
  unfold writeFile
  simp only
  split
  · exact .refl second tree
  next made =>
  have edited := (Edited.refl second tree).makeDirectories? made
  split
  · exact edited
  · exact edited.insert _ (.inr ⟨content, rfl⟩)
  · exact edited.create _ (.inr ⟨content, rfl⟩)

theorem edited_write (tree : FileTree) (path content : Text) (second : Stamp) :
    Edited second tree (tree.write path content second) := by
  unfold write
  split
  · exact edited_makeDirectory ..
  · exact edited_writeFile ..

theorem edited_delete (tree : FileTree) (path : Text) (second : Stamp) :
    Edited second tree (tree.delete path) := by
  have rest : Edited second tree { tree with
      entries := tree.entries.filter fun entry =>
        !(tree.placeBelow path).isPrefixOf entry.1 } := by
    refine ⟨rfl, fun {place entry} found => .inl ?_⟩
    have filtered := lookup_filter (fun other => !(tree.placeBelow path).isPrefixOf other)
      tree.entries place
    rw [found] at filtered
    split at filtered
    · exact filtered.symm
    · cases filtered
  unfold delete
  simp only
  split
  · exact rest.turn _
  · exact rest

/-- The place that names lead to from another one, by their spelling. -/
def destination (place : Place) : List Text → Place
  | [] => place
  | name :: names =>
    if name = [] || name = utf8 "." then destination place names
    else if name = utf8 ".." then destination place.dropLast names
    else destination (place ++ [name]) names

/-- The place that a path leads to, if it leads anywhere. -/
def target (tree : FileTree) (path : Text) : Place :=
  destination (if Path.isAbsolute path then [] else tree.working) (Text.splitOn Ascii.slash path)

theorem eq_destination_of_follow {tree : FileTree} {place : Place} {names : List Text} {q : Place}
    (h : tree.follow place names = .ok q) : q = destination place names := by
  induction names generalizing place with
  | nil =>
    simp only [follow] at h
    split at h
    · exact (Except.ok.inj h).symm
    · cases h
  | cons name names ih =>
    simp only [follow] at h
    rw [destination]
    split at h
    · cases h
    · cases h
    · split at h
      · cases h
      split at h
      · next blank =>
        rw [if_pos blank]
        exact ih h
      next named =>
      rw [if_neg named]
      split at h
      · next up =>
        rw [if_pos up]
        exact ih h
      · next down =>
        rw [if_neg down]
        exact ih h

theorem entry?_target {tree : FileTree} {path : Text} {entry : FileEntry}
    (h : tree.find? path = some entry) : tree.entry? (tree.target path) = some entry := by
  simp only [find?, stat] at h
  cases resolved : tree.resolve path with
  | error cause =>
    rw [resolved] at h
    cases h
  | ok place =>
    have here : place = tree.target path := by
      simp only [resolve] at resolved
      split at resolved
      · cases resolved
      split at resolved
      · cases resolved
      split at resolved
      · cases resolved
      · exact eq_destination_of_follow resolved
    rw [resolved] at h
    simp only [bind, Except.bind] at h
    rw [← here]
    cases found : tree.entry? place with
    | none =>
      rw [found] at h
      cases h
    | some other =>
      rw [found] at h
      exact h

/-- An entry below the root is among the entries of the tree. -/
theorem lookup_target {tree : FileTree} {path : Text} {entry : FileEntry}
    (h : tree.find? path = some entry) (below : tree.target path ≠ []) :
    tree.entries.lookup (tree.target path) = some entry := by
  have found := entry?_target h
  rwa [ entry?, if_neg below] at found

theorem target_ne_nil_of_file {tree : FileTree} {path content : Text} {stamp : Stamp}
    (h : tree.find? path = some (.file content stamp)) : tree.target path ≠ [] := by
  intro root
  have found := entry?_target h
  rw [ entry?, if_pos root] at found
  cases found

/-- No file is dated later than `latest`. -/
def Timed (latest : Stamp) (tree : FileTree) : Prop :=
  ∀ ⦃place : Place⦄ ⦃content : Text⦄ ⦃time : Stamp⦄,
    tree.entries.lookup place = some (.file content time) → time ≤ latest

namespace Timed

variable {latest second : Stamp} {tree new : FileTree}

theorem edited (timed : tree.Timed latest) (edited : Edited second tree new)
    (later : latest ≤ second) : new.Timed second := by
  intro place content time found
  rcases edited.entry found with kept | ⟨_, made⟩ | ⟨_, made⟩
  · exact Int.le_trans (timed kept) later
  · cases made
  · cases made
    exact Int.le_refl _

theorem find?_le (timed : tree.Timed latest) {path content : Text} {time : Stamp}
    (found : tree.find? path = some (.file content time)) : time ≤ latest :=
  timed (lookup_target found (target_ne_nil_of_file found))

end Timed

/-- Of the files dated no later than `bound`, the new tree has none that the old one has not. -/
structure Keeps (bound : Stamp) (old new : FileTree) : Prop where
  working : new.working = old.working
  file : ∀ {place : Place} {content : Text} {time : Stamp},
    new.entries.lookup place = some (.file content time) → time ≤ bound →
      old.entries.lookup place = some (.file content time)

namespace Keeps

variable {bound second : Stamp} {old new : FileTree}

theorem refl (bound : Stamp) (tree : FileTree) : Keeps bound tree tree :=
  ⟨rfl, fun found _ => found⟩

theorem edited {next : FileTree} (keeps : Keeps bound old new) (edited : Edited second new next)
    (later : bound < second) : Keeps bound old next := by
  refine ⟨edited.working.trans keeps.working, fun found early => ?_⟩
  rcases edited.entry found with kept | ⟨_, made⟩ | ⟨_, made⟩
  · exact keeps.file kept early
  · cases made
  · cases made
    exact absurd early (Int.not_le.mpr later)

/-- What stands where a file stood, with a time no later than that of the file, is the file or a
directory. -/
theorem eq_or_directory (keeps : Keeps bound old new) (timed : old.Timed bound)
    {path content : Text} {time : Stamp} {entry : FileEntry}
    (was : old.find? path = some (.file content time)) (found : new.find? path = some entry)
    (early : entry.modified ≤ time) :
    entry = .file content time ∨ entry = .directory entry.modified := by
  have same : new.target path = old.target path := by rw [target, target, keeps.working]
  have below := target_ne_nil_of_file was
  have before := lookup_target was below
  have now := lookup_target found (same ▸ below)
  rw [same] at now
  cases entry with
  | directory time => exact .inr rfl
  | file content' time' =>
    have kept := keeps.file now (Int.le_trans early (timed.find?_le was))
    rw [before] at kept
    exact .inl (Option.some.inj kept).symm

end Keeps

end FileTree

end CMakeSense
