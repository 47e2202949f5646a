import CMakeSense.Proofs.Workspace.Buffers
import CMakeSense.Workspace.Watcher

/-! Sessions: a workspace, the file tree around it and the watcher of its included files, in which
files change, buffers are opened, edited and closed, and the watcher looks from time to time. A
`History` goes along with a session and remembers of each buffer the last rebuild of its cache. All
along it the cache of every buffer is what that rebuild makes of the buffer's references
(`History.Coherent`): actions come down to edits of single buffers (`Session.edits`), and an edit
either rebuilds the cache or changes nothing that a rebuild would see. -/

namespace CMakeSense

structure Session where
  tree : FileTree
  workspace : Workspace
  watcher : Watcher

namespace Session

/-- What happens in a session. -/
inductive Action where
  | write (path content : Text) (second : Stamp)
  | delete (path : Text)
  /-- The clock comes to show any time. -/
  | clock (time : Stamp)
  /-- The file tree becomes any other one. -/
  | replace (tree : FileTree)
  | update (path content : Text)
  | load (path : Text)
  | loadAll
  | close (path : Text)
  | refresh (path : Text)
  | look

def start (tree : FileTree) (root : Text) (config : Config) : Session :=
  ⟨tree, .new root config, .new⟩

def step (s : Session) : Action → Session
  | .write path content second => { s with tree := s.tree.write path content second }
  | .delete path => { s with tree := s.tree.delete path }
  | .clock time => { s with tree := { s.tree with clock := time } }
  | .replace tree => { s with tree }
  | .update path content => { s with workspace := s.workspace.update s.tree path content }
  | .load path =>
    match s.workspace.scanFile s.tree path with
    | .ok workspace => { s with workspace }
    | .error _ => s
  | .loadAll => { s with workspace := s.workspace.scanAll s.tree }
  | .close path => { s with workspace := s.workspace.remove path }
  | .refresh path => { s with workspace := s.workspace.refresh s.tree path }
  | .look =>
    let look := s.watcher.scan s.workspace s.tree
    { s with workspace := look.workspace, watcher := look.watcher }

def run (s : Session) (actions : List Action) : Session := actions.foldl step s

/-- Loading a file gives its buffer the content of the file, if it can be read. -/
def loadEdits (tree : FileTree) (path : Text) : List Workspace.Edit :=
  match tree.readFile path with
  | .ok content => [.update path content]
  | .error _ => []

/-- The edits that an action comes down to. -/
def edits (s : Session) : Action → List Workspace.Edit
  | .write .. | .delete _ | .clock _ | .replace _ => []
  | .update path content => [.update path content]
  | .load path => loadEdits s.tree path
  | .loadAll => (s.workspace.scripts s.tree).flatMap (loadEdits s.tree)
  | .close path => [.close path]
  | .refresh path => [.refresh path]
  | .look => (s.watcher.scan s.workspace s.tree).rebuilt.map .refresh

theorem foldl_loadEdits (tree : FileTree) (workspace : Workspace) (path : Text) :
    (loadEdits tree path).foldl (Workspace.Edit.apply tree) workspace =
      (workspace.scanFile tree path).toOption.getD workspace := by
  simp only [loadEdits, Workspace.scanFile]
  cases tree.readFile path <;> rfl

/-- The edits of an action lead to the workspace that it leaves. -/
theorem workspace_step (s : Session) (action : Action) :
    (s.step action).workspace =
      (s.edits action).foldl (Workspace.Edit.apply s.tree) s.workspace := by
  cases action with
  | write | delete | clock | replace | update | close | refresh => rfl
  | load path =>
    rw [edits, foldl_loadEdits, step]
    cases s.workspace.scanFile s.tree path <;> rfl
  | loadAll =>
    rw [edits, List.foldl_flatMap]
    simp only [foldl_loadEdits]
    rfl
  | look =>
    rw [edits, List.foldl_map]
    rfl

end Session

/-- A rebuild of the cache of a buffer. -/
structure Rebuild where
  tree : FileTree
  /-- What the watcher knew when the rebuild was done. -/
  watcher : Watcher
  /-- The file tree at the watcher's first look since. -/
  firstLook? : Option FileTree

/-- The rebuild once the watcher has looked at a file tree. -/
def Rebuild.lookAt (rebuild : Rebuild) (tree : FileTree) : Rebuild :=
  { rebuild with firstLook? := rebuild.firstLook?.or (some tree) }

/-- A session with the last rebuild of the cache of each buffer. -/
structure History where
  session : Session
  rebuild? : Text → Option Rebuild

namespace History

open Session

def start (tree : FileTree) (root : Text) (config : Config) : History :=
  ⟨.start tree root config, fun _ => none⟩

/-- Goes on by one edit. -/
def edit (h : History) (e : Workspace.Edit) : History where
  session := { h.session with workspace := e.apply h.session.tree h.session.workspace }
  rebuild? path :=
    if path = e.path ∧ e.rebuilds h.session.workspace = true then
      some ⟨h.session.tree, h.session.watcher, none⟩
    else h.rebuild? path

/-- What an action does apart from its edits. -/
def enter (h : History) : Action → History
  | .look =>
    { session := { h.session with
        watcher := (h.session.watcher.scan h.session.workspace h.session.tree).watcher }
      rebuild? := fun path => (h.rebuild? path).map (·.lookAt h.session.tree) }
  | .write path content second =>
    { h with session := { h.session with tree := h.session.tree.write path content second } }
  | .delete path => { h with session := { h.session with tree := h.session.tree.delete path } }
  | .clock time =>
    { h with session := { h.session with tree := { h.session.tree with clock := time } } }
  | .replace tree => { h with session := { h.session with tree } }
  | _ => h

def step (h : History) (action : Action) : History :=
  (h.session.edits action).foldl edit (h.enter action)

def run (h : History) (actions : List Action) : History := actions.foldl step h

theorem session_foldl_edit (h : History) (edits : List Workspace.Edit) :
    (edits.foldl edit h).session = { h.session with
      workspace := edits.foldl (Workspace.Edit.apply h.session.tree) h.session.workspace } := by
  induction edits generalizing h with
  | nil => rfl
  | cons e edits ih => exact ih (h.edit e)

theorem session_step (h : History) (action : Action) :
    (h.step action).session = h.session.step action := by
  have workspace := h.session.workspace_step action
  rw [step, session_foldl_edit]
  cases action with
  | write | delete | clock | replace => rfl
  | load path =>
    rw [Session.step] at workspace ⊢
    cases loaded : h.session.workspace.scanFile h.session.tree path with
    | ok next =>
      rw [loaded] at workspace
      simp only [enter, ← workspace]
    | error =>
      rw [loaded] at workspace
      simp only [enter, ← workspace]
  | _ => simp only [enter, ← workspace, Session.step]

/-- A history follows its session. -/
theorem session_run (h : History) (actions : List Action) :
    (h.run actions).session = h.session.run actions := by
  induction actions generalizing h with
  | nil => rfl
  | cons action actions ih =>
    rw [run, List.foldl_cons]
    refine (ih (h.step action)).trans ?_
    rw [session_step]
    rfl

section Note
variable {h : History} {e : Workspace.Edit} {path : Text}

theorem rebuild?_edit_self (again : e.rebuilds h.session.workspace = true) :
    (h.edit e).rebuild? e.path = some ⟨h.session.tree, h.session.watcher, none⟩ :=
  if_pos ⟨rfl, again⟩

theorem rebuild?_edit_of_kept (kept : e.rebuilds h.session.workspace = false) :
    (h.edit e).rebuild? path = h.rebuild? path :=
  if_neg fun both => Bool.false_ne_true (kept.symm.trans both.2)

theorem rebuild?_edit_of_ne (differs : path ≠ e.path) :
    (h.edit e).rebuild? path = h.rebuild? path :=
  if_neg fun both => differs both.1

/-- Edits of other buffers leave a buffer and the note of its last rebuild alone. -/
theorem foldl_edit_of_ne {edits : List Workspace.Edit} (others : ∀ e ∈ edits, path ≠ e.path) :
    (edits.foldl edit h).session.workspace.buffer? path = h.session.workspace.buffer? path ∧
      (edits.foldl edit h).rebuild? path = h.rebuild? path := by
  induction edits generalizing h with
  | nil => exact ⟨rfl, rfl⟩
  | cons e edits ih =>
    have differs := others e List.mem_cons_self
    obtain ⟨buffer, note⟩ := ih (h := h.edit e) fun e' he' => others e' (List.mem_cons_of_mem e he')
    exact ⟨buffer.trans (Workspace.Edit.buffer?_apply_of_ne differs),
      note.trans (rebuild?_edit_of_ne differs)⟩

theorem rebuild?_enter_look {rebuild : Rebuild} (noted : h.rebuild? path = some rebuild) :
    (h.enter .look).rebuild? path = some (rebuild.lookAt h.session.tree) := by
  simp only [enter, noted, Option.map_some]

end Note

/-- Every buffer has the cache that its last rebuild makes of its references. -/
def Coherent (h : History) : Prop :=
  ∀ path buffer, h.session.workspace.buffer? path = some buffer →
    ∃ rebuild, h.rebuild? path = some rebuild ∧
      buffer.BuiltFrom h.session.workspace.config.modulesDir rebuild.tree path

namespace Coherent

variable {h : History}

theorem start (tree : FileTree) (root : Text) (config : Config) :
    (History.start tree root config).Coherent := by
  intro path buffer found
  cases found

/-- An edit rebuilds the cache of a buffer just now or leaves it as it was. -/
theorem edit_cases (coherent : h.Coherent) {e : Workspace.Edit} {path : Text} {buffer : Buffer}
    (found : (h.edit e).session.workspace.buffer? path = some buffer) :
    ((h.edit e).rebuild? path = some ⟨h.session.tree, h.session.watcher, none⟩ ∧
      buffer.BuiltFrom h.session.workspace.config.modulesDir h.session.tree path) ∨
    ∃ old, h.session.workspace.buffer? path = some old ∧ buffer.cache = old.cache ∧
      (h.edit e).rebuild? path = h.rebuild? path ∧
      ∀ earlier, old.BuiltFrom h.session.workspace.config.modulesDir earlier path →
        buffer.BuiltFrom h.session.workspace.config.modulesDir earlier path := by
  by_cases here : path = e.path
  · subst here
    have before (old : Buffer) (hold : h.session.workspace.buffer? e.path = some old) :
        ∃ earlier, old.BuiltFrom h.session.workspace.config.modulesDir earlier e.path := by
      obtain ⟨rebuild, _, built⟩ := coherent e.path old hold
      exact ⟨rebuild.tree, built⟩
    rcases Workspace.Edit.apply_cases found before with
      ⟨kept, old, hold, same, carry⟩ | ⟨again, built⟩
    · exact .inr ⟨old, hold, same, rebuild?_edit_of_kept kept, carry⟩
    · exact .inl ⟨rebuild?_edit_self again, built⟩
  · refine .inr ⟨buffer, ?_, rfl, rebuild?_edit_of_ne here, fun _ built => built⟩
    rw [← found]
    exact (Workspace.Edit.buffer?_apply_of_ne here).symm

theorem edit (coherent : h.Coherent) (e : Workspace.Edit) : (h.edit e).Coherent := by
  intro path buffer found
  have config : (h.edit e).session.workspace.config = h.session.workspace.config :=
    Workspace.Edit.config_apply ..
  rw [config]
  rcases coherent.edit_cases found with ⟨again, built⟩ | ⟨old, hold, _, kept, carry⟩
  · exact ⟨_, again, built⟩
  · obtain ⟨rebuild, noted, built⟩ := coherent path old hold
    exact ⟨rebuild, kept.trans noted, carry rebuild.tree built⟩

theorem foldl_edit (coherent : h.Coherent) (edits : List Workspace.Edit) :
    (edits.foldl History.edit h).Coherent := by
  induction edits generalizing h with
  | nil => exact coherent
  | cons e edits ih => exact ih (coherent.edit e)

theorem enter (coherent : h.Coherent) (action : Action) : (h.enter action).Coherent := by
  cases action with
  | look =>
    intro path buffer found
    obtain ⟨rebuild, noted, built⟩ := coherent path buffer found
    exact ⟨_, rebuild?_enter_look noted, built⟩
  | _ => exact coherent

theorem step (coherent : h.Coherent) (action : Action) : (h.step action).Coherent :=
  (coherent.enter action).foldl_edit _

theorem run (coherent : h.Coherent) (actions : List Action) : (h.run actions).Coherent := by
  induction actions generalizing h with
  | nil => exact coherent
  | cons action actions ih => exact ih (coherent.step action)

end Coherent

theorem config_foldl_edit (h : History) (edits : List Workspace.Edit) :
    (edits.foldl edit h).session.workspace.config = h.session.workspace.config := by
  induction edits generalizing h with
  | nil => rfl
  | cons e edits ih => exact (ih (h.edit e)).trans (Workspace.Edit.config_apply ..)

theorem config_step (h : History) (action : Action) :
    (h.step action).session.workspace.config = h.session.workspace.config := by
  refine (config_foldl_edit ..).trans ?_
  cases action <;> rfl

theorem config_run (h : History) (actions : List Action) :
    (h.run actions).session.workspace.config = h.session.workspace.config := by
  induction actions generalizing h with
  | nil => rfl
  | cons action actions ih => exact (ih (h.step action)).trans (h.config_step action)

end History

namespace Workspace

/-- Loading a file is an edit of its buffer. -/
theorem apply_of_scanFile {workspace loaded : Workspace} {tree : FileTree} {path : Text}
    (h : workspace.scanFile tree path = .ok loaded) :
    ∃ content, loaded = workspace.update tree path content := by
  simp only [scanFile] at h
  cases read : tree.readFile path with
  | error => simp [read, Except.map] at h
  | ok content =>
    simp only [read, Except.map, Except.ok.injEq] at h
    exact ⟨content, h.symm⟩

end Workspace

namespace History

open Session

/-- **Caches stay coherent over a whole session.** Whatever happens, every buffer shows the lines
and references of its content, and the entries of its cache are those that the last rebuild of the
cache makes of these references, even if the references have moved to other lines since. What is
done to one buffer leaves all others as they are. -/
theorem caches_coherent (tree : FileTree) (root : Text) (config : Config) (actions : List Action) :
    ((start tree root config).run actions).session =
      (Session.start tree root config).run actions ∧
    (∀ path buffer,
      ((start tree root config).run actions).session.workspace.buffer? path = some buffer →
        buffer.lines = Script.lines buffer.content ∧
        buffer.includes = Script.includes buffer.lines ∧
        ∃ rebuild, ((start tree root config).run actions).rebuild? path = some rebuild ∧
          buffer.cache.entries = ((IncludeCache.new config.modulesDir).rebuild rebuild.tree path
            buffer.includes).entries) ∧
    ∀ (workspace : Workspace) (tree : FileTree) (path other content : Text), other ≠ path →
      (workspace.update tree path content).buffer? other = workspace.buffer? other ∧
      (∀ loaded, workspace.scanFile tree path = .ok loaded →
        loaded.buffer? other = workspace.buffer? other) ∧
      (workspace.remove path).buffer? other = workspace.buffer? other ∧
      (workspace.refresh tree path).buffer? other = workspace.buffer? other := by
  refine ⟨session_run .., ?_, ?_⟩
  · intro path buffer found
    have coherent := (Coherent.start tree root config).run actions
    obtain ⟨rebuild, noted, built⟩ := coherent path buffer found
    rw [config_run] at built
    exact ⟨built.lines, built.includes, rebuild, noted, built.entries⟩
  · intro workspace tree path other content differs
    have update (content : Text) := workspace.buffer?_update_of_ne tree content differs
    refine ⟨update content, ?_, ?_, ?_⟩
    · intro loaded h
      obtain ⟨content, rfl⟩ := Workspace.apply_of_scanFile h
      exact update content
    · exact (workspace.buffer?_remove path other).trans (if_neg differs.symm)
    · exact (workspace.buffer?_refresh tree path other).trans (if_neg differs.symm)

/-- A file changes, and then its reference moves to another line, which leaves the cache as it was
built. -/
theorem caches_coherent_after_moved_reference :
    let h := (start (.empty []) (utf8 ".") .default).run
      [.write (utf8 "a") (utf8 "set(A 1)") 1, .update (utf8 "x") (utf8 "include(a)"),
        .write (utf8 "a") (utf8 "set(B 1)") 2, .update (utf8 "x") (utf8 "\ninclude(a)")]
    (∃ buffer rebuild, h.session.workspace.buffer? (utf8 "x") = some buffer ∧
      buffer.includes = Script.includes buffer.lines ∧ h.rebuild? (utf8 "x") = some rebuild ∧
      buffer.cache.entries = ((IncludeCache.new []).rebuild rebuild.tree (utf8 "x")
        buffer.includes).entries) ∧
    (h.session.workspace.remove (utf8 "y")).buffer? (utf8 "x") =
      h.session.workspace.buffer? (utf8 "x") := by
  intro h
  obtain ⟨_, buffers, others⟩ := caches_coherent (.empty []) (utf8 ".") .default
    [.write (utf8 "a") (utf8 "set(A 1)") 1, .update (utf8 "x") (utf8 "include(a)"),
      .write (utf8 "a") (utf8 "set(B 1)") 2, .update (utf8 "x") (utf8 "\ninclude(a)")]
  have loaded : (h.session.workspace.buffer? (utf8 "x")).isSome = true := by decide +kernel
  obtain ⟨buffer, found⟩ := Option.isSome_iff_exists.mp loaded
  obtain ⟨_, includes, rebuild, noted, entries⟩ := buffers (utf8 "x") buffer found
  have kept := others h.session.workspace h.session.tree (utf8 "y") (utf8 "x") [] (by decide)
  exact ⟨⟨buffer, rebuild, found, includes, noted, entries⟩, kept.2.2.1⟩

end History

end CMakeSense
