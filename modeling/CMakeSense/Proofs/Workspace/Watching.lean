import CMakeSense.Proofs.Workspace.Looking

/-! What the watcher catches. It compares the times of the included files with those of its last
look, so it needs to know a file before it can tell that the file has changed: the first look at a
file records its time, whatever has happened to the file since the cache was built
(`Rebuild.Noticed`). And a directory that takes the place of a file is no change to the watcher if
the file was dated later (`Rebuild.Masked`). As long as files are written at ever later seconds
(`Session.Timely`), any other file whose changes are noticed and that a look does not find changed
is the file that the cache was built from (`Rebuild.Follows.find?_eq`). The invariant
`Rebuild.Follows` says so of each buffer between two rebuilds of its cache; actions keep it
(`History.Tracked`). -/

namespace CMakeSense

/-- Whether the watcher has a time of a file that is no later than the one in the tree. -/
def Watcher.Knows (watcher : Watcher) (tree : FileTree) (file : Text) : Prop :=
  ∃ entry last, tree.find? file = some entry ∧ watcher.times.lookup file = some last ∧
    last ≤ entry.modified

namespace Rebuild

/-- Whether a later change of a file can be noticed: the watcher knew a time of the file, or the
file was still as it had been when the watcher first looked at it. -/
def Noticed (rebuild : Rebuild) (file : Text) : Prop :=
  rebuild.watcher.Knows rebuild.tree file ∨
    ∀ first ∈ rebuild.firstLook?, first.find? file = rebuild.tree.find? file

/-- Whether a file has given way to a directory that is not dated later. -/
def Masked (rebuild : Rebuild) (now : FileTree) (file : Text) : Prop :=
  ∃ content second time, rebuild.tree.find? file = some (.file content second) ∧
    now.find? file = some (.directory time) ∧ time ≤ second

/-- Between a rebuild of a cache and the next one, no file dated up to the second `bound` of the
rebuild is new, and from the first look on the watcher knows the files of the cache. -/
structure Follows (rebuild : Rebuild) (bound : Stamp) (now : FileTree) (known : Watcher)
    (files : List Text) : Prop where
  tree : rebuild.tree.Timed bound
  keeps : rebuild.tree.Keeps bound now
  unlooked : rebuild.firstLook? = none → known = rebuild.watcher
  looked : ∀ first, rebuild.firstLook? = some first → ∀ file ∈ files, rebuild.Noticed file →
    known.Knows rebuild.tree file

namespace Follows

variable {rebuild : Rebuild} {bound : Stamp} {now : FileTree} {known : Watcher} {files : List Text}
  {file : Text}

theorem rebuilt (tree : now.Timed bound) : Follows ⟨now, known, none⟩ bound now known files where
  tree := tree
  keeps := .refl bound now
  unlooked := fun _ => rfl
  looked := fun _ first => nomatch first

/-- The watcher knows a noticed file, unless this is the first look and the file is as it was. -/
theorem knows_or_eq (follows : rebuild.Follows bound now known files) (member : file ∈ files)
    (noticed : (rebuild.lookAt now).Noticed file) :
    known.Knows rebuild.tree file ∨ now.find? file = rebuild.tree.find? file := by
  cases looked : rebuild.firstLook? with
  | none =>
    rw [follows.unlooked looked]
    refine noticed.imp_right fun still => still now ?_
    simp [lookAt, looked]
  | some first =>
    refine .inl (follows.looked first looked file member (noticed.imp_right fun still => ?_))
    intro tree htree
    refine still tree ?_
    simpa [lookAt, looked] using htree

/-- A noticed file of the cache that is not found changed is as the rebuild found it, unless a
directory masks its change. -/
theorem find?_eq (follows : rebuild.Follows bound now known files) (member : file ∈ files)
    {content : Text} {second : Stamp} (was : rebuild.tree.find? file = some (.file content second))
    (unchanged : known.hasChanged now file = false)
    (noticed : (rebuild.lookAt now).Noticed file) (unmasked : ¬ rebuild.Masked now file) :
    now.find? file = rebuild.tree.find? file := by
  obtain ⟨entry, found, early⟩ := Watcher.find?_of_not_hasChanged unchanged
  rcases follows.knows_or_eq member noticed with ⟨entry', last, was', time, le⟩ | same
  · obtain rfl := Option.some.inj (was.symm.trans was')
    have old : entry.modified ≤ second := Int.le_trans (early last time) le
    rcases follows.keeps.eq_or_directory follows.tree was found old with rfl | directory
    · exact found.trans was.symm
    · rw [directory] at found
      exact absurd ⟨content, second, entry.modified, was, found, old⟩ unmasked
  · exact same

/-- A look that finds no change leaves the watcher knowing the files of the cache. -/
theorem look {workspace : Workspace} {path : Text} {buffer : Buffer}
    (follows : rebuild.Follows bound now known buffer.cache.paths)
    (loaded : workspace.buffer? path = some buffer)
    (unchanged : ∀ file ∈ buffer.cache.paths, known.hasChanged now file = false) :
    (rebuild.lookAt now).Follows bound now (known.scan workspace now).watcher
      buffer.cache.paths where
  tree := follows.tree
  keeps := follows.keeps
  unlooked := by
    intro looked
    cases first : rebuild.firstLook? <;> simp [lookAt, first] at looked
  looked := by
    intro first _ file member noticed
    obtain ⟨entry, found, early⟩ := Watcher.find?_of_not_hasChanged (unchanged file member)
    have present : (known.scan workspace now).watcher.times.lookup file = some entry.modified := by
      rw [Watcher.lookup_times_scan, Watcher.timeOf?_of_mem loaded member, found]
      rfl
    rcases follows.knows_or_eq member noticed with ⟨entry', last, was, time, le⟩ | same
    · exact ⟨entry', entry.modified, was, present, Int.le_trans (early last time) le⟩
    · exact ⟨entry, entry.modified, same.symm.trans found, present, Int.le_refl _⟩

/-- A cache that is not found stale is up to date if the changes of its files are noticed, none of
them is masked and no reference has been overtaken. -/
theorem entries_eq {modulesDir path : Text} {buffer : Buffer}
    (follows : rebuild.Follows bound now known buffer.cache.paths)
    (built : buffer.BuiltFrom modulesDir rebuild.tree path)
    (fresh : known.isStale now buffer = false)
    (noticed : ∀ file ∈ buffer.cache.paths,
      (rebuild.lookAt now).Noticed file ∧ ¬ rebuild.Masked now file)
    (kept : ∀ reference ∈ buffer.includes,
      ¬ reference.Overtaken rebuild.tree now (Path.dir path) modulesDir) :
    buffer.cache.entries =
      ((IncludeCache.new modulesDir).rebuild now path buffer.includes).entries := by
  refine built.entries_eq (fun file member => ?_) (Bool.or_eq_false_iff.mp fresh).2 kept
  obtain ⟨content, second, was⟩ := built.find?_of_mem_paths member
  obtain ⟨noticed, unmasked⟩ := noticed file member
  exact follows.find?_eq member was (Watcher.not_hasChanged_of_not_isStale fresh member) noticed
    unmasked

end Follows

end Rebuild

namespace Session

/-- Whether an action fits the times up to `latest`: files are written later. -/
def Action.Timely (latest : Stamp) : Action → Prop
  | .write _ _ second => latest < second
  | .replace _ => False
  | _ => True

/-- The latest time after an action. -/
def Action.latest (latest : Stamp) : Action → Stamp
  | .write _ _ second => second
  | _ => latest

/-- Every write gives its file a time later than all times before. -/
def Timely (latest : Stamp) : List Action → Prop
  | [] => True
  | action :: actions => action.Timely latest ∧ Timely (action.latest latest) actions

instance (latest : Stamp) : (action : Action) → Decidable (action.Timely latest)
  | .write _ _ second => inferInstanceAs (Decidable (latest < second))
  | .replace _ => .isFalse id
  | .delete _ | .clock _ | .update .. | .load _ | .loadAll | .close _ | .refresh _ | .look =>
    .isTrue trivial

instance decidableTimely : (latest : Stamp) → (actions : List Action) →
    Decidable (Timely latest actions)
  | _, [] => .isTrue trivial
  | latest, action :: actions =>
    have := decidableTimely (action.latest latest) actions
    inferInstanceAs (Decidable (action.Timely latest ∧ Timely (action.latest latest) actions))

/-- A look of the watcher at the session as it is. -/
def look (s : Session) : Watcher.Look := s.watcher.scan s.workspace s.tree

end Session

namespace History

open Session

variable {h : History} {latest : Stamp} {path : Text} {buffer : Buffer}

theorem foldl_refresh_of_notMem {paths : List Text} (absent : path ∉ paths) :
    ((paths.map .refresh).foldl edit h).session.workspace.buffer? path =
      h.session.workspace.buffer? path ∧
    ((paths.map .refresh).foldl edit h).rebuild? path = h.rebuild? path := by
  refine foldl_edit_of_ne fun e he => ?_
  obtain ⟨other, present, rfl⟩ := List.mem_map.mp he
  rintro rfl
  exact absent present

theorem rebuild?_foldl_refresh {paths : List Text}
    (loaded : (h.session.workspace.buffer? path).isSome = true) (member : path ∈ paths) :
    ((paths.map .refresh).foldl edit h).rebuild? path =
      some ⟨h.session.tree, h.session.watcher, none⟩ := by
  induction paths generalizing h with
  | nil => cases member
  | cons first paths ih =>
    rw [List.map_cons, List.foldl_cons]
    by_cases later : path ∈ paths
    · refine ih ?_ later
      have present := h.session.workspace.buffer?_refresh h.session.tree first path
      simp only [edit, Workspace.Edit.apply, present]
      split
      · next same => simpa [same] using loaded
      · exact loaded
    · obtain rfl : path = first := (List.mem_cons.mp member).resolve_right later
      rw [(foldl_refresh_of_notMem later).2]
      exact rebuild?_edit_self loaded

/-- A look rebuilds the cache of a buffer just now or leaves the buffer as it was. -/
theorem step_look_cases (found : (h.step .look).session.workspace.buffer? path = some buffer) :
    (path ∈ h.session.look.rebuilt ∧ (h.step .look).rebuild? path =
      some ⟨h.session.tree, (h.step .look).session.watcher, none⟩) ∨
    (path ∉ h.session.look.rebuilt ∧ h.session.workspace.buffer? path = some buffer ∧
      (h.step .look).rebuild? path = (h.rebuild? path).map (·.lookAt h.session.tree)) := by
  by_cases stale : path ∈ h.session.look.rebuilt
  · refine .inl ⟨stale, ?_⟩
    have loaded : (h.session.workspace.buffer? path).isSome = true := by
      obtain ⟨buffer, loaded, _⟩ := Watcher.mem_rebuilt.mp stale
      exact Option.isSome_iff_exists.mpr ⟨buffer, loaded⟩
    rw [session_step]
    exact rebuild?_foldl_refresh (h := h.enter .look) loaded stale
  · refine .inr ⟨stale, ?_⟩
    obtain ⟨kept, noted⟩ := foldl_refresh_of_notMem (h := h.enter .look) stale
    exact ⟨kept.symm.trans found, noted⟩

/-- Every buffer is followed from the last rebuild of its cache on. -/
structure Tracked (latest : Stamp) (h : History) : Prop where
  tree : h.session.tree.Timed latest
  follows : ∀ path buffer rebuild, h.session.workspace.buffer? path = some buffer →
    h.rebuild? path = some rebuild → ∃ bound, bound ≤ latest ∧
      rebuild.Follows bound h.session.tree h.session.watcher buffer.cache.paths

namespace Tracked

theorem start {tree : FileTree} (timed : tree.Timed latest) (root : Text) (config : Config) :
    (History.start tree root config).Tracked latest where
  tree := timed
  follows := fun _ _ _ found => nomatch found

theorem edit (tracked : h.Tracked latest) (coherent : h.Coherent) (e : Workspace.Edit) :
    (h.edit e).Tracked latest := by
  refine ⟨tracked.tree, fun path buffer rebuild found noted => ?_⟩
  rcases coherent.edit_cases found with ⟨again, _⟩ | ⟨old, hold, same, kept, _⟩
  · cases again.symm.trans noted
    exact ⟨latest, Int.le_refl _, .rebuilt tracked.tree⟩
  · rw [kept] at noted
    rw [same]
    exact tracked.follows path old rebuild hold noted

theorem foldl_edit (tracked : h.Tracked latest) (coherent : h.Coherent)
    (edits : List Workspace.Edit) : (edits.foldl History.edit h).Tracked latest := by
  induction edits generalizing h with
  | nil => exact tracked
  | cons e edits ih => exact ih (tracked.edit coherent e) (coherent.edit e)

/-- Files may change as long as nothing old comes up. -/
theorem retree (tracked : h.Tracked latest) {tree : FileTree} {second : Stamp}
    (timed : tree.Timed second) (later : latest ≤ second)
    (keeps : ∀ {old : FileTree} {bound : Stamp}, bound ≤ latest →
      old.Keeps bound h.session.tree → old.Keeps bound tree) :
    Tracked second { h with session := { h.session with tree } } := by
  refine ⟨timed, fun path buffer rebuild found noted => ?_⟩
  obtain ⟨bound, early, follows⟩ := tracked.follows path buffer rebuild found noted
  exact ⟨bound, Int.le_trans early later,
    { follows with keeps := keeps early follows.keeps }⟩

/-- What writes no file may happen at any time. -/
theorem unwritten (tracked : h.Tracked latest) {tree : FileTree}
    (edited : ∀ second, FileTree.Edited second h.session.tree tree) :
    Tracked latest { h with session := { h.session with tree } } := by
  have timed := tracked.tree.edited (edited latest) (Int.le_refl _)
  refine tracked.retree timed (Int.le_refl _) fun early keeps => ?_
  exact keeps.edited (edited (latest + 1)) (Int.lt_add_one_of_le early)

theorem look (tracked : h.Tracked latest) (coherent : h.Coherent) :
    (h.step .look).Tracked latest := by
  have session : (h.step .look).session =
      { h.session with workspace := h.session.look.workspace, watcher := h.session.look.watcher } :=
    session_step h .look
  refine ⟨session ▸ tracked.tree, ?_⟩
  intro path buffer rebuild found noted
  rcases step_look_cases found with ⟨_, again⟩ | ⟨fresh, loaded, kept⟩
  · rw [session] at again ⊢
    cases again.symm.trans noted
    exact ⟨latest, Int.le_refl _, .rebuilt tracked.tree⟩
  · obtain ⟨earlier, before, _⟩ := coherent path buffer loaded
    rw [kept, before] at noted
    cases noted
    obtain ⟨bound, early, follows⟩ := tracked.follows path buffer earlier loaded before
    have unchanged := Watcher.isStale_of_notMem_rebuilt loaded fresh
    rw [session]
    exact ⟨bound, early, follows.look loaded fun _ =>
      Watcher.not_hasChanged_of_not_isStale unchanged⟩

theorem step (tracked : h.Tracked latest) (coherent : h.Coherent) {action : Action}
    (timely : action.Timely latest) : (h.step action).Tracked (action.latest latest) := by
  cases action with
  | write path content second =>
    have edited := h.session.tree.edited_write path content second
    have later : latest ≤ second := Int.le_of_lt timely
    refine tracked.retree (tracked.tree.edited edited later) later fun early keeps => ?_
    exact keeps.edited edited (Int.lt_of_le_of_lt early timely)
  | delete path => exact tracked.unwritten (h.session.tree.edited_delete path)
  | clock time => exact tracked.unwritten fun _ => ⟨rfl, .inl⟩
  | replace tree => exact timely.elim
  | look => exact tracked.look coherent
  | _ => exact tracked.foldl_edit coherent _

theorem run (tracked : h.Tracked latest) (coherent : h.Coherent) {actions : List Action}
    (timely : Timely latest actions) : ∃ last, (h.run actions).Tracked last := by
  induction actions generalizing h latest with
  | nil => exact ⟨latest, tracked⟩
  | cons action actions ih =>
    exact ih (tracked.step coherent timely.1) (coherent.step action) timely.2

end Tracked

/-- **What a look of the watcher leaves up to date.** If every write has given its file a later time
than all before, the caches that a look rebuilds hold what a new cache would hold, and so does every
other cache, provided that since its last rebuild the watcher can notice the changes of its files,
no directory masks one of them, and no reference has been overtaken. -/
theorem caches_fresh_after_look (tree : FileTree) (root : Text) (config : Config) (latest : Stamp)
    (actions : List Action) (timed : tree.Timed latest) (timely : Timely latest actions) :
    let h := (start tree root config).run actions
    (h.step .look).session = (Session.start tree root config).run (actions ++ [.look]) ∧
    ∀ path buffer, (h.step .look).session.workspace.buffer? path = some buffer →
      ∃ rebuild, (h.step .look).rebuild? path = some rebuild ∧
        (path ∈ h.session.look.rebuilt ∨
          ((∀ file ∈ buffer.cache.paths,
              rebuild.Noticed file ∧ ¬ rebuild.Masked (h.step .look).session.tree file) ∧
            ∀ reference ∈ buffer.includes, ¬ reference.Overtaken rebuild.tree
              (h.step .look).session.tree (Path.dir path) config.modulesDir) →
          buffer.cache.entries = ((IncludeCache.new config.modulesDir).rebuild
            (h.step .look).session.tree path buffer.includes).entries) := by
  intro h
  have coherent : h.Coherent := (Coherent.start tree root config).run actions
  obtain ⟨last, tracked⟩ :=
    (Tracked.start timed root config).run (Coherent.start tree root config) timely
  have session : (h.step .look).session.tree = h.session.tree := by
    rw [session_step]
    rfl
  refine ⟨?_, fun path buffer found => ?_⟩
  · rw [session_step, session_run, Session.run, Session.run, List.foldl_append]
    rfl
  · have modulesDir : h.session.workspace.config.modulesDir = config.modulesDir := by
      rw [config_run]
      rfl
    rcases step_look_cases found with ⟨stale, again⟩ | ⟨fresh, loaded, kept⟩
    · obtain ⟨rebuild, noted, built⟩ := coherent.step .look path buffer found
      refine ⟨rebuild, noted, fun _ => ?_⟩
      cases again.symm.trans noted
      rw [config_step, modulesDir] at built
      rw [session]
      exact built.entries
    · obtain ⟨rebuild, noted, built⟩ := coherent path buffer loaded
      obtain ⟨bound, _, follows⟩ := tracked.follows path buffer rebuild loaded noted
      rw [noted] at kept
      refine ⟨_, kept, fun condition => ?_⟩
      obtain ⟨noticed, standing⟩ := condition.resolve_left fresh
      rw [session] at noticed standing ⊢
      rw [modulesDir] at built
      exact follows.entries_eq built (Watcher.isStale_of_notMem_rebuilt loaded fresh) noticed
        standing

/-- The watcher knows the time of a changed file when it rebuilds a cache, and the next look passes
over the cache. -/
theorem caches_fresh_after_look_at_known_file :
    let actions := [.write (utf8 "a") (utf8 "set(A 1)") 1, .update (utf8 "x") (utf8 "include(a)"),
      .look, .write (utf8 "a") (utf8 "set(B 1)") 2, .look]
    let h := (start (.empty []) (utf8 ".") .default).run actions
    FileTree.Timed 0 (.empty []) ∧ Timely 0 actions ∧ utf8 "x" ∉ h.session.look.rebuilt ∧
    ∃ buffer, (h.step .look).session.workspace.buffer? (utf8 "x") = some buffer ∧
      buffer.cache.paths = [utf8 "a"] ∧ buffer.cache.entries = ((IncludeCache.new []).rebuild
        (h.step .look).session.tree (utf8 "x") buffer.includes).entries := by
  intro actions h
  have timed : FileTree.Timed 0 (.empty []) := nofun
  have timely : Timely 0 actions := by decide
  obtain ⟨_, fresh⟩ :=
    caches_fresh_after_look (.empty []) (utf8 ".") .default 0 actions timed timely
  have loaded : ((h.step .look).session.workspace.buffer? (utf8 "x")).isSome = true := by
    decide +kernel
  have paths : ∀ buffer ∈ (h.step .look).session.workspace.buffer? (utf8 "x"),
      buffer.cache.paths = [utf8 "a"] := by decide +kernel
  have known : ∀ rebuild ∈ (h.step .look).rebuild? (utf8 "x"),
      rebuild.tree.find? (utf8 "a") = some (.file (utf8 "set(B 1)") 2) ∧
        rebuild.watcher.times.lookup (utf8 "a") = some 2 := by decide +kernel
  have file : (h.step .look).session.tree.find? (utf8 "a") = some (.file (utf8 "set(B 1)") 2) := by
    decide +kernel
  have standing : ∀ buffer ∈ (h.step .look).session.workspace.buffer? (utf8 "x"),
      ∀ rebuild ∈ (h.step .look).rebuild? (utf8 "x"), ∀ reference ∈ buffer.includes,
        ¬ reference.Overtaken rebuild.tree (h.step .look).session.tree
          (Path.dir (utf8 "x")) [] := by
    decide +kernel
  obtain ⟨buffer, found⟩ := Option.isSome_iff_exists.mp loaded
  obtain ⟨rebuild, noted, entries⟩ := fresh (utf8 "x") buffer found
  refine ⟨timed, timely, by decide +kernel, buffer, found, paths buffer found, entries (.inr ?_)⟩
  refine ⟨fun name member => ?_, standing buffer found rebuild noted⟩
  rw [paths buffer found] at member
  obtain rfl := List.mem_singleton.mp member
  obtain ⟨was, time⟩ := known rebuild noted
  refine ⟨.inl ⟨_, 2, was, time, Int.le_refl 2⟩, ?_⟩
  rintro ⟨_, _, _, _, directory, _⟩
  cases file.symm.trans directory

/-- A file that changes between the rebuild of a cache and the first look at the file goes
unnoticed. -/
theorem cache_stale_after_first_look :
    ¬ ∀ (tree : FileTree) (root : Text) (config : Config) (latest : Stamp) (actions : List Action),
      tree.Timed latest → Timely latest actions → ∀ path buffer,
        ((Session.start tree root config).run (actions ++ [.look])).workspace.buffer? path =
          some buffer →
        buffer.cache.entries = ((IncludeCache.new config.modulesDir).rebuild
          ((Session.start tree root config).run (actions ++ [.look])).tree path
            buffer.includes).entries := by
  intro fresh
  have empty : FileTree.Timed 0 (.empty []) := nofun
  have entries := fresh (.empty []) (utf8 ".") .default 0
    [.write (utf8 "a") (utf8 "set(A 1)") 1, .update (utf8 "x") (utf8 "include(a)"),
      .write (utf8 "a") (utf8 "set(B 1)") 2] empty (by decide) (utf8 "x")
  revert entries
  decide +kernel

-- A directory that takes the place of a file with a later date does not look like a change.
example :
    let s := (Session.start (.empty []) (utf8 ".") .default).run
      [.write (utf8 "a") (utf8 "set(A 1)") 5, .update (utf8 "x") (utf8 "include(a)"), .look,
        .clock 0, .delete (utf8 "a"), .write (utf8 "a/y") [] 6, .look]
    (s.workspace.buffer? (utf8 "x")).map (·.cache.paths) = some [utf8 "a"] ∧
      (s.tree.find? (utf8 "a")).map (·.modified) = some 3 ∧ s.tree.isFile (utf8 "a") = false := by
  decide +kernel

-- Nor does the watcher look for files that overtake a reference.
example :
    let config := { Config.default with modulesDir := utf8 "m" }
    let s := (Session.start (.empty []) (utf8 ".") config).run
      [.write (utf8 "m/a") (utf8 "set(A 1)") 1, .update (utf8 "x") (utf8 "include(a)"), .look,
        .write (utf8 "a") (utf8 "set(B 1)") 2, .look]
    (s.workspace.buffer? (utf8 "x")).map (·.cache.paths) = some [utf8 "m/a"] ∧
      (((s.workspace.refresh s.tree (utf8 "x")).buffer? (utf8 "x")).map (·.cache.paths)) =
        some [utf8 "a"] := by
  decide +kernel

end History

end CMakeSense
