import CMakeSense.FileTree.Listing
import CMakeSense.Proofs.FileTree.Names

/-! Following the shortest spelling of a path. Where names can be followed, so can the components
that remain of them, and to the same place: a name that `..` takes back was a directory on the way
(`FileTree.follow_foldl_push`). So a file that a directory lists is found under the path that is
made of the directory and its name, as long as that path is not too long
(`FileTree.Proper.find?_join`). -/

namespace CMakeSense.FileTree

variable {tree : FileTree} {start place next q : Place} {name : Text} {names : List Text}

section Follow

theorem follow_nil_eq_ok : tree.follow place [] = .ok q ↔
    (tree.entry? place).isSome = true ∧ q = place := by
  rw [follow]
  split
  · next there => simp [there, eq_comm]
  · next missing => simp [missing]

/-- A step leads on from a directory, by a name that is not too long. -/
theorem follow_cons_eq_ok : tree.follow place (name :: names) = .ok q ↔
    (∃ stamp, tree.entry? place = some (.directory stamp)) ∧ name.length ≤ 255 ∧
      tree.follow (destination place [name]) names = .ok q := by
  rw [follow]
  split
  · next missing => simp [missing]
  · next file => simp [file]
  · next directory =>
    by_cases long : 255 < name.length
    · simp [long, Nat.not_le.mpr long]
    · rw [if_neg long]
      have short := Nat.not_lt.mp long
      simp only [directory, short, Option.some.injEq, FileEntry.directory.injEq, exists_eq',
        true_and, destination]
      split
      · rfl
      · split <;> rfl

theorem isSome_of_follow (h : tree.follow place names = .ok q) :
    (tree.entry? place).isSome = true := by
  cases names with
  | nil => exact (follow_nil_eq_ok.mp h).1
  | cons name names =>
    obtain ⟨⟨stamp, directory⟩, _⟩ := follow_cons_eq_ok.mp h
    rw [directory]
    rfl

/-- Names are followed one after the other. -/
theorem follow_append_eq_ok {others : List Text} : tree.follow place (names ++ others) = .ok q ↔
    ∃ mid, tree.follow place names = .ok mid ∧ tree.follow mid others = .ok q := by
  induction names generalizing place with
  | nil =>
    simp only [List.nil_append, follow_nil_eq_ok]
    constructor
    · intro h
      exact ⟨place, ⟨isSome_of_follow h, rfl⟩, h⟩
    · rintro ⟨mid, ⟨_, rfl⟩, h⟩
      exact h
  | cons name names ih =>
    simp only [List.cons_append, follow_cons_eq_ok, ih]
    constructor
    · rintro ⟨directory, short, mid, first, rest⟩
      exact ⟨mid, ⟨directory, short, first⟩, rest⟩
    · rintro ⟨mid, ⟨directory, short, first⟩, rest⟩
      exact ⟨directory, short, mid, first, rest⟩

theorem eq_destination_of_step (h : tree.follow place [name] = .ok next) :
    next = destination place [name] :=
  (follow_nil_eq_ok.mp (follow_cons_eq_ok.mp h).2.2).2

theorem destination_of_named (named : name ≠ [] ∧ name ≠ utf8 ".") (down : name ≠ utf8 "..") :
    destination place [name] = place ++ [name] := by
  simp [destination, named, down]

end Follow

/-- What is kept of the names so far leads where they do, also with one name more. -/
theorem follow_push {rooted : Bool} {kept : List Text} (root : rooted = true → start = [])
    (named : ∀ name ∈ kept, name ≠ [] ∧ name ≠ utf8 ".")
    (h : tree.follow start kept.reverse = .ok place)
    (step : tree.follow place [name] = .ok next) :
    tree.follow start (Path.push rooted kept name).reverse = .ok next := by
  have on : tree.follow start (name :: kept).reverse = .ok next := by
    rw [List.reverse_cons]
    exact follow_append_eq_ok.mpr ⟨place, h, step⟩
  have here := eq_destination_of_step step
  unfold Path.push
  split
  · next blank =>
    have stays : next = place := by
      rw [here, destination, if_pos blank, destination]
    rwa [stays]
  next other =>
  split
  · next up =>
    have above : next = place.dropLast := by
      rw [here, destination, if_neg other, if_pos up, destination]
    cases kept with
    | nil =>
      simp only
      split
      · next isRooted =>
        obtain rfl := root isRooted
        obtain ⟨_, rfl⟩ := follow_nil_eq_ok.mp h
        rwa [above]
      · exact on
    | cons last rest =>
      simp only
      split
      · exact on
      · next down =>
        -- The last name led down from a directory, to which `..` leads back.
        rw [List.reverse_cons] at h
        obtain ⟨mid, before, last_step⟩ := follow_append_eq_ok.mp h
        have inside := eq_destination_of_step last_step
        rw [destination_of_named (named last List.mem_cons_self) down] at inside
        rw [above, inside, List.dropLast_concat]
        exact before
  · exact on

theorem follow_foldl_push {rooted : Bool} {kept : List Text} (root : rooted = true → start = [])
    (named : ∀ name ∈ kept, name ≠ [] ∧ name ≠ utf8 ".")
    (h : tree.follow start kept.reverse = .ok place) (rest : tree.follow place names = .ok q) :
    tree.follow start (names.foldl (Path.push rooted) kept).reverse = .ok q := by
  induction names generalizing kept place with
  | nil =>
    obtain ⟨_, rfl⟩ := follow_nil_eq_ok.mp rest
    exact h
  | cons name names ih =>
    rw [← List.singleton_append] at rest
    obtain ⟨next, step, rest⟩ := follow_append_eq_ok.mp rest
    refine ih (fun other member => ?_) (follow_push root named h step) rest
    rcases Path.mem_push member with member | ⟨_, named⟩
    · exact named other member
    · exact named

/-- The place that a path starts from. -/
def origin (tree : FileTree) (path : Text) : Place :=
  if Path.isAbsolute path then [] else tree.working

theorem follow_components {path : Text}
    (h : tree.follow (tree.origin path) (Text.splitOn Ascii.slash path) = .ok q) :
    tree.follow (tree.origin path) (Path.components path) = .ok q := by
  refine follow_foldl_push (fun absolute => if_pos absolute) (fun _ member => nomatch member) ?_ h
  exact follow_nil_eq_ok.mpr ⟨isSome_of_follow h, rfl⟩

theorem resolve_eq_ok {path : Text} : tree.resolve path = .ok q ↔
    path ≠ [] ∧ 0 ∉ path ∧ path.length < pathLimit ∧
      tree.follow (tree.origin path) (Text.splitOn Ascii.slash path) = .ok q := by
  rw [resolve]
  split
  · next empty => simp [empty]
  split
  · next invalid => simp_all
  split
  · next long => simp [Nat.not_lt.mpr long]
  · next given valid long =>
    have valid : 0 ∉ path := by simpa using valid
    simp [given, valid, Nat.not_le.mp long, origin]

/-- The empty piece before the first slash stays at the root. -/
theorem follow_lead {root : Text} :
    tree.follow (tree.origin root) ((if Path.isAbsolute root then [[]] else []) ++ names) = .ok q ↔
      tree.follow (tree.origin root) names = .ok q := by
  split
  · next absolute =>
    rw [origin, if_pos absolute, List.singleton_append, follow_cons_eq_ok]
    exact ⟨fun ⟨_, _, rest⟩ => rest, fun rest => ⟨⟨_, rfl⟩, Nat.zero_le _, rest⟩⟩
  · rfl

/-- The names of a path below a directory are followed from there, unless the path is too long. -/
theorem resolve_foldl_join {root : Text} (h : tree.resolve root = .ok place)
    (named : ∀ name ∈ names, IsEntryName name) (given : names ≠ []) :
    tree.resolve (names.foldl Path.join root) = .ok q ↔
      (names.foldl Path.join root).length < pathLimit ∧ tree.follow place names = .ok q := by
  obtain ⟨hroot, spelled, _, follows⟩ := resolve_eq_ok.mp h
  have isName : ∀ name ∈ names, Path.IsName name := fun name member => (named name member).toIsName
  have pieces : ∀ piece ∈ Path.components root ++ names, piece ≠ [] ∧ Ascii.slash ∉ piece :=
    fun piece member => Path.mem_spelled isName member
  have below : tree.follow (tree.origin root) (Path.components root ++ names) = .ok q ↔
      tree.follow place names = .ok q := by
    rw [follow_append_eq_ok, follow_components follows]
    exact ⟨fun ⟨_, same, rest⟩ => Except.ok.inj same ▸ rest, fun rest => ⟨place, rfl, rest⟩⟩
  have long : Path.components root ++ names ≠ [] := List.append_ne_nil_of_right_ne_nil _ given
  have path : names.foldl Path.join root =
      Path.spell (Path.isAbsolute root) (Path.components root ++ names) :=
    Path.foldl_join hroot isName given
  have nonempty : names.foldl Path.join root ≠ [] :=
    path ▸ Path.spell_ne_nil (fun piece member => (pieces piece member).1) long
  have valid : 0 ∉ names.foldl Path.join root := by
    rw [path]
    intro zero
    rcases Path.mem_spell zero with slash | ⟨piece, member, zero⟩
    · cases slash
    rcases List.mem_append.mp member with member | member
    · exact spelled (Text.mem_of_mem_splitOn (Path.mem_components member).1 zero).1
    · exact (named piece member).valid zero
  have start : tree.origin (names.foldl Path.join root) = tree.origin root := by
    rw [path, origin, Path.isAbsolute_spell pieces, ← origin]
  have split : Text.splitOn Ascii.slash (names.foldl Path.join root) =
      (if Path.isAbsolute root then [[]] else []) ++ (Path.components root ++ names) :=
    path ▸ Path.splitOn_spell (fun piece member => (pieces piece member).2) long
  rw [resolve_eq_ok, start, split, follow_lead, below]
  exact ⟨fun ⟨_, _, within, rest⟩ => ⟨within, rest⟩,
    fun ⟨within, rest⟩ => ⟨nonempty, valid, within, rest⟩⟩

/-- The path of a listed name leads to it, unless it is too long. -/
theorem resolve_join {dir : Text} {stamp : Stamp} (h : tree.resolve dir = .ok place)
    (directory : tree.entry? place = some (.directory stamp))
    (there : (tree.entry? (place ++ [name])).isSome = true) (named : IsEntryName name)
    (within : (Path.join dir name).length < pathLimit) :
    tree.resolve (Path.join dir name) = .ok (place ++ [name]) := by
  refine (resolve_foldl_join h (List.forall_mem_singleton.mpr named) (List.cons_ne_nil _ _)).mpr
    ⟨within, follow_cons_eq_ok.mpr ⟨⟨stamp, directory⟩, named.short, ?_⟩⟩
  rw [destination_of_named ⟨named.nonempty, named.current⟩ named.parent]
  exact follow_nil_eq_ok.mpr ⟨there, rfl⟩

theorem find?_eq_some {path : Text} {entry : FileEntry} : tree.find? path = some entry ↔
    ∃ place, tree.resolve path = .ok place ∧ tree.entry? place = some entry := by
  rw [find?, stat]
  cases tree.resolve path with
  | error cause => simp [bind, Except.bind, Except.toOption]
  | ok place =>
    simp only [bind, Except.bind, Except.ok.injEq, exists_eq_left']
    cases tree.entry? place <;> rfl

theorem readFile_eq_ok {path content : Text} : tree.readFile path = .ok content ↔
    ∃ stamp, tree.find? path = some (.file content stamp) := by
  rw [readFile, find?]
  cases tree.stat path with
  | error cause => simp [Except.toOption]
  | ok entry => cases entry <;> simp [Except.toOption]

theorem mem_children {entry : FileEntry} (h : (name, entry) ∈ tree.children place) :
    (place ++ [name], entry) ∈ tree.entries := by
  rw [children, List.mem_mergeSort, List.mem_filterMap] at h
  obtain ⟨⟨other, entry'⟩, member, found⟩ := h
  simp only at found
  split at found
  · next last =>
    split at found
    · next above =>
      obtain ⟨rfl, rfl⟩ := Prod.mk.inj (Option.some.inj found)
      obtain ⟨front, rfl⟩ := List.getLast?_eq_some_iff.mp last
      rw [List.dropLast_concat] at above
      exact above ▸ member
    · cases found
  · cases found

/-- What a path lists is in the directory that it leads to. -/
theorem mem_list {dir : Text} {entry : FileEntry} (h : (name, entry) ∈ tree.list dir) :
    ∃ place stamp, tree.resolve dir = .ok place ∧ tree.entry? place = some (.directory stamp) ∧
      (place ++ [name], entry) ∈ tree.entries := by
  unfold list at h
  split at h
  · next place resolved =>
    split at h
    · next stamp directory => exact ⟨place, stamp, resolved, directory, mem_children h⟩
    · cases h
  · cases h

private theorem lookup_of_mem {α β : Type} [BEq α] [LawfulBEq α] {entries : List (α × β)} {key : α}
    {value : β} (distinct : (entries.map (·.1)).Nodup) (h : (key, value) ∈ entries) :
    entries.lookup key = some value := by
  induction entries with
  | nil => cases h
  | cons entry entries ih =>
    rw [List.map_cons, List.nodup_cons] at distinct
    rcases List.mem_cons.mp h with same | later
    · rw [← same]
      exact List.lookup_cons_self
    · have differs : (key == entry.1) = false := by
        refine beq_eq_false_iff_ne.mpr fun same => distinct.1 ?_
        exact same ▸ List.mem_map_of_mem later
      rw [← Prod.eta entry, List.lookup_cons, differs]
      exact ih distinct.2 later

namespace Proper

variable {dir : Text} {entry : FileEntry}

theorem isName_of_mem_list (proper : tree.Proper) (h : (name, entry) ∈ tree.list dir) :
    Path.IsName name := by
  obtain ⟨place, _, _, _, member⟩ := mem_list h
  exact (proper.names _ member name (by simp)).toIsName

/-- A listed entry is found under the path of its name, unless that is too long. -/
theorem find?_join (proper : tree.Proper) (h : (name, entry) ∈ tree.list dir)
    (within : (Path.join dir name).length < pathLimit) :
    tree.find? (Path.join dir name) = some entry := by
  obtain ⟨place, stamp, resolved, directory, member⟩ := mem_list h
  have named : IsEntryName name := proper.names _ member name (by simp)
  have found : tree.entry? (place ++ [name]) = some entry := by
    rw [ entry?, if_neg (by simp)]
    exact lookup_of_mem proper.distinct member
  have there : (tree.entry? (place ++ [name])).isSome = true := by
    rw [found]
    rfl
  exact find?_eq_some.mpr ⟨_, resolve_join resolved directory there named within, found⟩

end Proper

end CMakeSense.FileTree
