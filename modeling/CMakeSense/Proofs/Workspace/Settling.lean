import CMakeSense.Proofs.Workspace.Watching

/-! Looks settle. A look takes down the time of every included file that it finds, and all of them
are found unchanged by a second look at the same tree (`Watcher.hasChanged_scan`). A cache that the
first look rebuilt holds files of that tree, and what it could not resolve there it cannot resolve
there again (`IncludeCache.hasAppeared_rebuild`); a cache that the first look passed over has not
changed since. So the second look finds nothing to rebuild, whatever session came before. -/

namespace CMakeSense

/-- What a rebuild could not resolve in a tree does not appear in the same tree. -/
theorem IncludeCache.hasAppeared_rebuild (cache : IncludeCache) (tree : FileTree) (path : Text)
    (includes : List Include) : (cache.rebuild tree path includes).hasAppeared tree = false := by
  refine List.any_eq_false.mpr fun reference member => ?_
  obtain ⟨_, nowhere, _⟩ := mem_unresolved_rebuild.mp member
  exact Option.not_isSome_iff_eq_none.mpr nowhere

namespace Watcher

variable {watcher : Watcher} {workspace : Workspace} {tree : FileTree} {path file : Text}
  {buffer : Buffer}

/-- After a look the watcher knows the present times, and nothing but a missing file is a change. -/
theorem hasChanged_scan (found : (tree.find? file).isSome = true) :
    (watcher.scan workspace tree).watcher.hasChanged tree file = false := by
  obtain ⟨entry, hentry⟩ := Option.isSome_iff_exists.mp found
  have known := watcher.lookup_times_scan workspace tree file
  rw [timeOf?, hentry] at known
  unfold hasChanged
  rw [hentry]
  split at known
  · rw [known]
  · rw [known]
    exact decide_eq_false (Int.lt_irrefl entry.modified)

/-- The times after a look are those of the included files that it finds. -/
theorem lookup_times_scan_iff (watcher : Watcher) {stamp : Stamp} :
    (watcher.scan workspace tree).watcher.times.lookup file = some stamp ↔
      (∃ path buffer, workspace.buffer? path = some buffer ∧ file ∈ buffer.cache.paths) ∧
        ∃ entry, tree.find? file = some entry ∧ entry.modified = stamp := by
  have included : workspace.ownersOf file ≠ [] ↔
      ∃ path buffer, workspace.buffer? path = some buffer ∧ file ∈ buffer.cache.paths := by
    refine Iff.trans ⟨List.exists_mem_of_ne_nil _, ?_⟩
      (exists_congr fun path => Workspace.mem_ownersOf)
    exact fun ⟨_, owner⟩ => List.ne_nil_of_mem owner
  rw [lookup_times_scan, timeOf?, ← included]
  split
  · next unowned => simp only [unowned, ne_eq, not_true_eq_false, false_and, reduceCtorEq]
  · next owned => simp only [owned, ne_eq, not_false_eq_true, true_and, Option.map_eq_some_iff]

/-- A buffer whose files are all there and whose unresolved references still lead nowhere is passed
over by a look right after another one. -/
theorem not_isStale_scan (files : ∀ file ∈ buffer.cache.paths, (tree.find? file).isSome = true)
    (appeared : buffer.cache.hasAppeared tree = false) :
    (watcher.scan workspace tree).watcher.isStale tree buffer = false := by
  refine Bool.or_eq_false_iff.mpr ⟨?_, appeared⟩
  refine List.any_eq_false.mpr fun file member => ?_
  rw [hasChanged_scan (files file member)]
  exact Bool.false_ne_true

end Watcher

namespace History

open Session

variable {h : History} {path : Text} {buffer : Buffer}

/-- No buffer is stale right after a look. -/
theorem Coherent.not_isStale_step_look (coherent : h.Coherent)
    (found : (h.step .look).session.workspace.buffer? path = some buffer) :
    (h.step .look).session.watcher.isStale (h.step .look).session.tree buffer = false := by
  have session : (h.step .look).session = { h.session with
      workspace := h.session.look.workspace, watcher := h.session.look.watcher } :=
    session_step h .look
  rw [session]
  rcases step_look_cases found with ⟨_, again⟩ | ⟨passed, loaded, _⟩
  · -- The cache has been rebuilt from this very tree.
    obtain ⟨rebuild, noted, built⟩ := coherent.step .look path buffer found
    cases again.symm.trans noted
    apply Watcher.not_isStale_scan
    · intro file member
      obtain ⟨content, stamp, there⟩ := built.find?_of_mem_paths member
      exact Option.isSome_iff_exists.mpr ⟨_, there⟩
    · obtain ⟨includes, _, cache⟩ := built.cache
      rw [cache]
      exact IncludeCache.hasAppeared_rebuild ..
  · have fresh := Watcher.isStale_of_notMem_rebuilt loaded passed
    apply Watcher.not_isStale_scan
    · intro file member
      have unchanged := Watcher.not_hasChanged_of_not_isStale fresh member
      obtain ⟨entry, there, _⟩ := Watcher.find?_of_not_hasChanged unchanged
      exact Option.isSome_iff_exists.mpr ⟨entry, there⟩
    · exact (Bool.or_eq_false_iff.mp fresh).2

end History

namespace Session

/-- Where no buffer is stale, a look rebuilds nothing and leaves the workspace as it is. -/
theorem look_of_not_isStale {s : Session}
    (fresh : ∀ path buffer, s.workspace.buffer? path = some buffer →
      s.watcher.isStale s.tree buffer = false) :
    s.look.rebuilt = [] ∧ s.look.workspace = s.workspace := by
  have none : s.look.rebuilt = [] := by
    refine List.eq_nil_iff_forall_not_mem.mpr fun path stale => ?_
    obtain ⟨buffer, loaded, changed⟩ := Watcher.mem_rebuilt.mp stale
    exact Bool.false_ne_true ((fresh path buffer loaded).symm.trans changed)
  refine ⟨none, ?_⟩
  have workspace : s.look.workspace = s.look.rebuilt.foldl (·.refresh s.tree ·) s.workspace := rfl
  rw [workspace, none]
  rfl

/-- **Looks settle.** After any session, a second look that follows a first one with nothing in
between rebuilds nothing and leaves all buffers with their caches alone. A look lists the buffers
that it rebuilds in strict byte order, and all of them are loaded. The times that it leaves are just
those of the files that were in a cache when it began and that it found. -/
theorem looks_settle (tree : FileTree) (root : Text) (config : Config) (actions : List Action) :
    let s := (start tree root config).run actions
    let once := s.step .look
    (once.look.rebuilt = [] ∧ once.look.workspace = once.workspace) ∧
    (s.look.rebuilt.Pairwise (· < ·) ∧
      ∀ path ∈ s.look.rebuilt, ∃ buffer, s.workspace.buffer? path = some buffer) ∧
    ∀ file stamp, once.watcher.times.lookup file = some stamp ↔
      (∃ path buffer, s.workspace.buffer? path = some buffer ∧ file ∈ buffer.cache.paths) ∧
        ∃ entry, s.tree.find? file = some entry ∧ entry.modified = stamp := by
  intro s once
  refine ⟨look_of_not_isStale ?_, ⟨s.watcher.pairwise_rebuilt s.workspace s.tree, ?_⟩, ?_⟩
  · intro path buffer found
    let h := (History.start tree root config).run actions
    have coherent : h.Coherent := (History.Coherent.start tree root config).run actions
    have session : (h.step .look).session = once := by
      rw [History.session_step, History.session_run]
      rfl
    rw [← session] at found ⊢
    exact coherent.not_isStale_step_look found
  · intro path member
    obtain ⟨buffer, loaded, _⟩ := Watcher.mem_rebuilt.mp member
    exact ⟨buffer, loaded⟩
  · intro file stamp
    exact s.watcher.lookup_times_scan_iff

/-- One of two included files is deleted: the first look afterwards rebuilds the cache, the second
one does not, and the file that is still there keeps its time. -/
theorem looks_settle_after_deletion :
    let actions := [.write (utf8 "a") (utf8 "set(A 1)") 1, .write (utf8 "b") [] 2,
      .update (utf8 "x") (utf8 "include(a)\ninclude(b)"), .look, .delete (utf8 "a")]
    let s := (start (.empty []) (utf8 ".") .default).run actions
    s.look.rebuilt = [utf8 "x"] ∧ s.look.rebuilt.Pairwise (· < ·) ∧
    (∃ buffer, s.workspace.buffer? (utf8 "x") = some buffer) ∧
    (s.step .look).look.rebuilt = [] ∧
    (s.step .look).watcher.times.lookup (utf8 "b") = some 2 := by
  intro actions s
  obtain ⟨⟨none, _⟩, ⟨ordered, loaded⟩, times⟩ :=
    looks_settle (.empty []) (utf8 ".") .default actions
  have rebuilt : s.look.rebuilt = [utf8 "x"] := by decide +kernel
  obtain ⟨buffer, found⟩ := loaded (utf8 "x") (by rw [rebuilt]; exact List.mem_cons_self)
  have files : ∀ buffer ∈ s.workspace.buffer? (utf8 "x"), utf8 "b" ∈ buffer.cache.paths := by
    decide +kernel
  have there : s.tree.find? (utf8 "b") = some (.file [] 2) := by decide +kernel
  refine ⟨rebuilt, ordered, ⟨buffer, found⟩, none, (times (utf8 "b") _).mpr ⟨?_, _, there, rfl⟩⟩
  exact ⟨utf8 "x", buffer, found, files buffer found⟩

end Session

end CMakeSense
