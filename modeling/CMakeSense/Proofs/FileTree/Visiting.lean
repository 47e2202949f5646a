import CMakeSense.Proofs.FileTree.Following
import Mathlib.Data.List.Induction

/-! Walking down a file tree. A walk enters the directory that it starts from, hidden or not, and
below it every directory that is not hidden (`FileTree.Enters`). The names of the directories that
it enters can be followed, and directories that can be followed to by names that are not hidden are
entered (`FileTree.enters_iff`). So the files that the walk comes upon are those that can be read
under the paths of the visible files, as long as the paths are not too long
(`FileTree.Proper.visits_iff`). -/

namespace CMakeSense.FileTree

variable {tree : FileTree} {start place q : Place} {name root path content : Text}
  {names : List Text}

/-- The directories that a walk enters, by the names that lead to them from where it starts. -/
inductive Enters (tree : FileTree) (start : Place) : List Text → Prop where
  | start {stamp : Stamp} (found : tree.entry? start = some (.directory stamp)) :
      Enters tree start []
  | next {names : List Text} {name : Text} {stamp : Stamp} (above : Enters tree start names)
      (visible : isHidden name = false)
      (found : tree.entry? (start ++ (names ++ [name])) = some (.directory stamp)) :
      Enters tree start (names ++ [name])

/-- A walk from a path on comes upon a file in a directory that it enters. The path of the file is
made of the names on the way. -/
def Visits (tree : FileTree) (root path content : Text) : Prop :=
  ∃ start dirs name stamp, tree.resolve root = .ok start ∧ tree.Enters start dirs ∧
    tree.entry? (start ++ (dirs ++ [name])) = some (.file content stamp) ∧
    path = (dirs ++ [name]).foldl Path.join root

theorem enters_nil : tree.Enters start [] ↔
    ∃ stamp, tree.entry? start = some (.directory stamp) := by
  constructor
  · intro h
    generalize none : ([] : List Text) = names at h
    cases h with
    | start found => exact ⟨_, found⟩
    | next => simp at none
  · rintro ⟨_, found⟩
    exact .start found

theorem enters_concat : tree.Enters start (names ++ [name]) ↔
    tree.Enters start names ∧ isHidden name = false ∧
      ∃ stamp, tree.entry? (start ++ (names ++ [name])) = some (.directory stamp) := by
  constructor
  · intro h
    generalize whole : names ++ [name] = all at h ⊢
    cases h with
    | start => simp at whole
    | next above visible found =>
      obtain ⟨rfl, last⟩ := List.append_inj' whole rfl
      exact ⟨above, List.singleton_inj.mp last ▸ visible, _, found⟩
  · rintro ⟨above, visible, _, found⟩
    exact .next above visible found

theorem eq_append_of_follow (named : ∀ name ∈ names, IsEntryName name)
    (h : tree.follow start names = .ok q) : q = start ++ names := by
  induction names generalizing start with
  | nil =>
    rw [List.append_nil]
    exact (follow_nil_eq_ok.mp h).2
  | cons name names ih =>
    rw [List.forall_mem_cons] at named
    obtain ⟨_, _, rest⟩ := follow_cons_eq_ok.mp h
    rw [destination_of_named ⟨named.1.nonempty, named.1.current⟩ named.1.parent] at rest
    rw [ih named.2 rest, List.append_assoc]
    rfl

/-- The last name leads on from a directory. -/
theorem follow_concat_eq_ok (named : ∀ other ∈ names ++ [name], IsEntryName other) :
    tree.follow start (names ++ [name]) = .ok q ↔
      tree.follow start names = .ok (start ++ names) ∧
      (∃ stamp, tree.entry? (start ++ names) = some (.directory stamp)) ∧
      (tree.entry? (start ++ (names ++ [name]))).isSome = true ∧
      q = start ++ (names ++ [name]) := by
  have above : ∀ other ∈ names, IsEntryName other :=
    fun other member => named other (List.mem_append_left _ member)
  have last : IsEntryName name := named name (by simp)
  have step : destination (start ++ names) [name] = start ++ (names ++ [name]) := by
    rw [destination_of_named ⟨last.nonempty, last.current⟩ last.parent, List.append_assoc]
  rw [follow_append_eq_ok]
  constructor
  · rintro ⟨mid, first, rest⟩
    obtain rfl := eq_append_of_follow above first
    obtain ⟨directory, _, rest⟩ := follow_cons_eq_ok.mp rest
    rw [step] at rest
    exact ⟨first, directory, follow_nil_eq_ok.mp rest⟩
  · rintro ⟨first, directory, here⟩
    refine ⟨_, first, follow_cons_eq_ok.mpr ⟨directory, last.short, ?_⟩⟩
    rw [step]
    exact follow_nil_eq_ok.mpr here

/-- A walk enters the directories that names lead to, unless one of the names is hidden. -/
theorem enters_iff (named : ∀ name ∈ names, IsEntryName name) : tree.Enters start names ↔
    tree.follow start names = .ok (start ++ names) ∧
      (∃ stamp, tree.entry? (start ++ names) = some (.directory stamp)) ∧
      ∀ name ∈ names, isHidden name = false := by
  induction names using List.reverseRecOn with
  | nil =>
    rw [enters_nil, List.append_nil, follow_nil_eq_ok]
    constructor
    · rintro ⟨stamp, found⟩
      exact ⟨⟨found ▸ rfl, rfl⟩, ⟨stamp, found⟩, nofun⟩
    · rintro ⟨_, directory, _⟩
      exact directory
  | append_singleton names name ih =>
    have above := ih fun other member => named other (List.mem_append_left _ member)
    rw [enters_concat, above, follow_concat_eq_ok named, List.forall_mem_append,
      List.forall_mem_singleton]
    constructor
    · rintro ⟨⟨first, directory, shown⟩, visible, stamp, found⟩
      exact ⟨⟨first, directory, found ▸ rfl, rfl⟩, ⟨stamp, found⟩, shown, visible⟩
    · rintro ⟨⟨first, directory, _⟩, found, shown, visible⟩
      exact ⟨⟨first, directory, shown⟩, visible, found⟩

theorem below?_eq_some : below? start place = some names ↔ place = start ++ names := by
  rw [below?]
  split
  · next here =>
    obtain ⟨rest, rfl⟩ := List.isPrefixOf_iff_prefix.mp here
    simp
  · next elsewhere =>
    refine ⟨nofun, fun same => absurd (List.isPrefixOf_iff_prefix.mpr ?_) elsewhere⟩
    exact ⟨names, same.symm⟩

theorem mem_visibleFiles (h : tree.resolve root = .ok start) : names ∈ tree.visibleFiles root ↔
    (∃ content stamp, (start ++ names, .file content stamp) ∈ tree.entries) ∧
      ∀ name ∈ names.dropLast, isHidden name = false := by
  rw [visibleFiles, h, List.mem_filterMap]
  constructor
  · rintro ⟨⟨place, entry⟩, member, found⟩
    simp only at found
    split at found
    · next content stamp _ inside =>
      obtain rfl := below?_eq_some.mp inside
      split at found
      · cases found
      · next shown =>
        cases found
        exact ⟨⟨content, stamp, member⟩, by simpa using shown⟩
    · cases found
  · rintro ⟨⟨content, stamp, member⟩, shown⟩
    refine ⟨_, member, ?_⟩
    simp only [below?_eq_some.mpr rfl]
    exact if_neg (by simpa using shown)

/-- A walk comes upon the visible files that can be read, which are those with paths that are not
too long. -/
theorem Proper.visits_iff {stamp : Stamp} (proper : tree.Proper)
    (directory : tree.find? root = some (.directory stamp)) :
    tree.Visits root path content ∧ path.length < pathLimit ↔
      (∃ names ∈ tree.visibleFiles root, path = names.foldl Path.join root) ∧
        tree.readFile path = .ok content := by
  obtain ⟨start, resolved, _⟩ := find?_eq_some.mp directory
  have named {names : List Text} {entry : FileEntry} (h : (start ++ names, entry) ∈ tree.entries) :
      ∀ name ∈ names, IsEntryName name :=
    fun name member => proper.names _ h name (List.mem_append_right _ member)
  have above {dirs : List Text} {name : Text} {entry : FileEntry}
      (h : (start ++ (dirs ++ [name]), entry) ∈ tree.entries) : ∀ name ∈ dirs, IsEntryName name :=
    fun other member => named h other (List.mem_append_left _ member)
  constructor
  · rintro ⟨⟨start', dirs, name, stamp, again, entered, found, rfl⟩, within⟩
    obtain rfl := Except.ok.inj (resolved.symm.trans again)
    have listed : (start ++ (dirs ++ [name]), .file content stamp) ∈ tree.entries := by
      rw [ entry?, if_neg (by simp)] at found
      exact mem_of_lookup found
    obtain ⟨first, directory, shown⟩ := (enters_iff (above listed)).mp entered
    have leads : tree.resolve ((dirs ++ [name]).foldl Path.join root) =
        .ok (start ++ (dirs ++ [name])) := by
      refine (resolve_foldl_join resolved (named listed) (by simp)).mpr ⟨within, ?_⟩
      exact (follow_concat_eq_ok (named listed)).mpr ⟨first, directory, found ▸ rfl, rfl⟩
    refine ⟨⟨dirs ++ [name], (mem_visibleFiles resolved).mpr ⟨⟨_, _, listed⟩, ?_⟩, rfl⟩, ?_⟩
    · rwa [List.dropLast_concat]
    · exact readFile_eq_ok.mpr ⟨stamp, find?_eq_some.mpr ⟨_, leads, found⟩⟩
  · rintro ⟨⟨names, visible, rfl⟩, read⟩
    obtain ⟨⟨_, _, listed⟩, shown⟩ := (mem_visibleFiles resolved).mp visible
    obtain ⟨stamp, found⟩ := readFile_eq_ok.mp read
    rcases names.eq_nil_or_concat with rfl | ⟨dirs, name, rfl⟩
    · rw [List.foldl_nil, directory] at found
      cases found
    · rw [List.concat_eq_append] at listed shown found ⊢
      obtain ⟨q, leads, found⟩ := find?_eq_some.mp found
      obtain ⟨within, follows⟩ := (resolve_foldl_join resolved (named listed) (by simp)).mp leads
      obtain ⟨first, directory, _, rfl⟩ := (follow_concat_eq_ok (named listed)).mp follows
      rw [List.dropLast_concat] at shown
      have entered := (enters_iff (above listed)).mpr ⟨first, directory, shown⟩
      exact ⟨⟨start, dirs, name, stamp, resolved, entered, found, rfl⟩, within⟩

/-- The names of visible files can be spelled in paths. -/
theorem Proper.isName_of_mem_visibleFiles (proper : tree.Proper)
    (h : names ∈ tree.visibleFiles root) : ∀ name ∈ names, Path.IsName name := by
  intro name member
  cases resolved : tree.resolve root with
  | error cause =>
    rw [visibleFiles, resolved] at h
    cases h
  | ok start =>
    obtain ⟨⟨_, _, listed⟩, _⟩ := (mem_visibleFiles resolved).mp h
    exact (proper.names _ listed name (List.mem_append_right _ member)).toIsName

end CMakeSense.FileTree
