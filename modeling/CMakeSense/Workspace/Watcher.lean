import CMakeSense.Workspace.Basic

/-! The watcher looks at the included files of a workspace from time to time and rebuilds the
caches that a change made stale: a file was modified or is gone, or an include that led to no file
leads to one now. It goes by times of modification, and learns the time of a file when it first
sees it. -/

namespace CMakeSense

/-- The times of modification of the included files at the last look. -/
structure Watcher where
  times : List (Text × Stamp)
  deriving Repr

namespace Watcher

/-- A watcher that has not looked yet. -/
def new : Watcher := ⟨[]⟩

/-- The interval between two looks, in nanoseconds. -/
def interval (config : Config) : Int :=
  if config.watchInterval ≤ 0 then Config.defaultInterval else config.watchInterval

/-- Takes down the time of a file. -/
def setTime (watcher : Watcher) (file : Text) (time : Stamp) : Watcher :=
  ⟨(file, time) :: watcher.times.filter (·.1 ≠ file)⟩

/-- Drops the time of a file. -/
def dropTime (watcher : Watcher) (file : Text) : Watcher :=
  ⟨watcher.times.filter (·.1 ≠ file)⟩

/-- Drops the times of all files but those that are included now. -/
def sweep (watcher : Watcher) (files : List Text) : Watcher :=
  ⟨watcher.times.filter fun (file, _) => files.contains file⟩

/-- What a look has found out about the files that it has come to. -/
structure Findings where
  watcher : Watcher
  /-- The buffers that include a changed file. -/
  stale : List Text

/-- Looks at one included file. A file that is gone or was modified since the last look makes the
caches of the buffers that include it stale. -/
def visit (tree : FileTree) (findings : Findings) : Text × List Text → Findings
  | (file, owners) =>
    match tree.find? file with
    | none => ⟨findings.watcher.dropTime file, findings.stale ++ owners⟩
    | some entry =>
      let watcher := findings.watcher.setTime file entry.modified
      match findings.watcher.times.lookup file with
      | some last =>
        if last < entry.modified then ⟨watcher, findings.stale ++ owners⟩
        else ⟨watcher, findings.stale⟩
      | none => ⟨watcher, findings.stale⟩

/-- What a look leaves behind. -/
structure Look where
  /-- The buffers whose caches were rebuilt, in byte order. -/
  rebuilt : List Text
  workspace : Workspace
  watcher : Watcher

/-- Looks at the included files once. -/
def scan (watcher : Watcher) (workspace : Workspace) (tree : FileTree) : Look :=
  let included := workspace.includedBy
  let findings := included.foldl (visit tree) ⟨watcher, []⟩
  let appeared := workspace.paths.filter fun path =>
    (workspace.buffer? path).any (·.cache.hasAppeared tree)
  let rebuilt := Text.sort (Text.distinct (findings.stale ++ appeared))
  { rebuilt
    workspace := rebuilt.foldl (·.refresh tree ·) workspace
    watcher := findings.watcher.sweep (included.map (·.1)) }

end Watcher

end CMakeSense
