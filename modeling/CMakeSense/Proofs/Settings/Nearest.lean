import CMakeSense.Proofs.FileTree.Following
import CMakeSense.Proofs.Text.Levels
import CMakeSense.Settings.Load
import Mathlib.Data.Nat.Find

/-! The settings file that counts for a directory. Climbing from the directory stops at the first
level with a settings file (`Config.climb_of_nearest`), and comes to a standstill at the root
(`Path.dir_iterate`), so it is the search through the candidates in order (`Config.find_eq_search`).
Whatever configuration is found has passed the checks, and its modules directory was made absolute
by the directory of its file (`Config.Valid`). None of this depends on how the text of a settings
file is decoded. -/

namespace CMakeSense

theorem FileTree.isAbsolute_workingPath (tree : FileTree) :
    Path.isAbsolute tree.workingPath = true := rfl

namespace Config

section Reading

variable {tree : FileTree} {path : Text} {config checked : Config} {decode : Settings.Decoder}

end Reading

section Climbing

variable (tree : FileTree) (dir : Text)

/-- The directory `n` levels above the given one. -/
def level (n : Nat) : Text := Path.dir^[n] (Path.absolute tree.workingPath dir)

/-- The settings file of the directory `n` levels above the given one. -/
def settingsFile (n : Nat) : Text := Path.join (level tree dir n) fileName

/-- The names that lead to a directory from the root. -/
def place : Place := Path.components (Path.absolute tree.workingPath dir)

/-- The levels above a directory lose one name after the other, down to the root. -/
theorem level_eq (n : Nat) : level tree dir n =
    Path.spell true ((place tree dir).take ((place tree dir).length - n)) := by
  obtain ⟨names, isName, absolute⟩ := Path.absolute_eq_spell tree.isAbsolute_workingPath dir
  rw [level, place, absolute, Path.components_root_spell isName, Path.dir_iterate isName]

variable {tree dir}

/-- From the root nothing leads further up. -/
theorem level_of_le {n : Nat} (h : (place tree dir).length ≤ n) :
    level tree dir n = level tree dir (place tree dir).length := by
  rw [level_eq, level_eq, Nat.sub_eq_zero_of_le h, Nat.sub_self]

/-- Climbing stops at the first settings file, whatever stands in it and further up. -/
theorem climb_of_nearest (decode : Settings.Decoder) {dir : Text} {n : Nat}
    (here : tree.has (Path.join (Path.dir^[n] dir) fileName) = true)
    (nearer : ∀ m < n, tree.has (Path.join (Path.dir^[m] dir) fileName) = false) :
    climb tree decode dir = (load tree (Path.join (Path.dir^[n] dir) fileName) decode).map
      (·, Path.join (Path.dir^[n] dir) fileName) := by
  induction n generalizing dir with
  | zero =>
    rw [climb]
    exact if_pos here
  | succ n ih =>
    have absent := nearer 0 (Nat.succ_pos n)
    have moves : Path.dir dir ≠ dir := by
      intro still
      rw [Function.iterate_fixed still] at here
      exact absurd here (Bool.eq_false_iff.mp absent)
    have next := @ih (Path.dir dir) here fun m below => nearer (m + 1) (Nat.succ_lt_succ below)
    rw [climb]
    exact (if_neg (Bool.eq_false_iff.mp absent)).trans ((if_neg moves).trans next)

/-- Climbing past no settings file ends with the default. -/
theorem climb_of_absent (decode : Settings.Decoder) {dir : Text}
    (absent : ∀ n, tree.has (Path.join (Path.dir^[n] dir) fileName) = false) :
    climb tree decode dir = .ok (default, []) := by
  fun_induction climb tree decode dir with
  | case1 dir path here => exact absurd here (Bool.eq_false_iff.mp (absent 0))
  | case2 => rfl
  | case3 dir path _ _ ih => exact ih fun n => absent (n + 1)

variable {decode : Settings.Decoder}

theorem find_of_nearest {n : Nat} (here : tree.has (settingsFile tree dir n) = true)
    (nearer : ∀ m < n, tree.has (settingsFile tree dir m) = false) :
    find tree dir decode =
      (load tree (settingsFile tree dir n) decode).map (·, settingsFile tree dir n) :=
  climb_of_nearest decode here nearer

theorem find_of_absent (absent : ∀ n, tree.has (settingsFile tree dir n) = false) :
    find tree dir decode = .ok (default, []) :=
  climb_of_absent decode absent

/-- A directory has a nearest settings file, or none. -/
theorem nearest_or_absent (tree : FileTree) (dir : Text) :
    (∃ n, tree.has (settingsFile tree dir n) = true ∧
      ∀ m < n, tree.has (settingsFile tree dir m) = false) ∨
    ∀ n, tree.has (settingsFile tree dir n) = false := by
  by_cases there : ∃ n, tree.has (settingsFile tree dir n) = true
  · refine .inl ⟨Nat.find there, Nat.find_spec there, fun m below => ?_⟩
    exact Bool.eq_false_iff.mpr (Nat.find_min there below)
  · exact .inr fun n => Bool.eq_false_iff.mpr fun here => there ⟨n, here⟩

/-- Climbing is searching the candidates in order. -/
theorem find_eq_search (tree : FileTree) (dir : Text) (decode : Settings.Decoder) :
    find tree dir decode =
      match (candidates (place tree dir)).find? tree.has with
      | some path => (load tree path decode).map (·, path)
      | none => .ok (default, []) := by
  have levels : candidates (place tree dir) =
      (List.range ((place tree dir).length + 1)).map (settingsFile tree dir) := by
    refine List.map_congr_left fun n _ => ?_
    rw [settingsFile, level_eq]
    rfl
  rw [levels, List.find?_map]
  rcases nearest_or_absent tree dir with ⟨n, here, nearer⟩ | absent
  · have within : n ≤ (place tree dir).length := by
      by_contra beyond
      have root := nearer _ (Nat.not_le.mp beyond)
      rw [settingsFile, ← level_of_le (Nat.le_of_not_le beyond), ← settingsFile, here] at root
      cases root
    have first : (List.range ((place tree dir).length + 1)).find?
        (tree.has ∘ settingsFile tree dir) = some n := by
      rw [List.find?_range_eq_some]
      refine ⟨here, List.mem_range.mpr (Nat.lt_succ_of_le within), fun m below => ?_⟩
      rw [Function.comp_apply, nearer m below]
      rfl
    rw [find_of_nearest here nearer, first]
    rfl
  · have missing : (List.range ((place tree dir).length + 1)).find?
        (tree.has ∘ settingsFile tree dir) = none :=
      List.find?_eq_none.mpr fun n _ => Bool.eq_false_iff.mp (absent n)
    rw [find_of_absent absent, missing]
    rfl

end Climbing

end Config

end CMakeSense
