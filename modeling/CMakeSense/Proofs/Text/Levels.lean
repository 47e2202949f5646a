import CMakeSense.Proofs.Text.Path
import Mathlib.Logic.Function.Iterate

/-! Going up in paths. The directory part of a path from the root takes off its last name
(`Path.dir_spell`), and the root is its own directory, so going up again and again comes to the root
and stays there (`Path.dir_iterate`). -/

namespace CMakeSense.Path

variable {names : List Text} {dir name : Text}

theorem components_root_spell (h : ∀ name ∈ names, IsName name) :
    components (spell true names) = names :=
  components_spell (.of_isName h) fun name member =>
    ⟨(h name member).nonempty, (h name member).slash⟩

/-- The directory part of a path ends before its last name. -/
theorem dir_append (h : IsName name) (path : Text) :
    Path.dir (path ++ Ascii.slash :: name) = clean (path ++ [Ascii.slash]) := by
  simp only [Path.dir, cutLast?_append h.slash]

/-- The directory of a path from the root leaves the last name off. -/
theorem dir_spell (h : ∀ name ∈ names, IsName name) (last : IsName name) :
    Path.dir (spell true (names ++ [name])) = spell true names := by
  by_cases top : names = []
  · rw [top]
    exact dir_append last []
  · have split : spell true (names ++ [name]) = spell true names ++ Ascii.slash :: name := by
      rw [spell, Text.join_concat top]
      rfl
    have given : spell true names ≠ [] := List.cons_ne_nil _ _
    rw [split, dir_append last, clean_eq_spell (.inl rfl), components_append_slash given,
      components_root_spell h]
    rfl

theorem dir_root : Path.dir (spell true []) = spell true [] := by decide

theorem dir_iterate (h : ∀ name ∈ names, IsName name) (n : Nat) :
    Path.dir^[n] (spell true names) = spell true (names.take (names.length - n)) := by
  induction n with
  | zero => rw [Nat.sub_zero, List.take_length, Function.iterate_zero_apply]
  | succ n ih =>
    rw [Function.iterate_succ_apply', ih]
    by_cases above : n < names.length
    · obtain ⟨k, hk⟩ : ∃ k, names.length - n = k + 1 := ⟨names.length - (n + 1), by omega⟩
      have below : k < names.length := by omega
      rw [show names.length - (n + 1) = k by omega, hk, List.take_succ_eq_append_getElem below]
      exact dir_spell (fun name member => h name (List.mem_of_mem_take member))
        (h _ (List.getElem_mem below))
    · rw [show names.length - n = 0 by omega, show names.length - (n + 1) = 0 by omega]
      exact dir_root

/-- The absolute spelling of a path, by the names that lead to it from the root. -/
theorem absolute_eq_spell {working : Text} (h : isAbsolute working = true) (path : Text) :
    ∃ names, (∀ name ∈ names, IsName name) ∧ absolute working path = spell true names := by
  have cleaned {p : Text} (h : isAbsolute p = true) :
      ∃ names, (∀ name ∈ names, IsName name) ∧ clean p = spell true names := by
    refine ⟨components p, fun name member => isName_of_mem_components h member, ?_⟩
    rw [clean_eq_spell (.inl h), h]
  unfold absolute
  split
  · next direct => exact cleaned direct
  · have given : working ≠ [] := by
      rintro rfl
      cases h
    rw [join, if_neg given]
    exact cleaned ((isAbsolute_append given _).trans h)

end CMakeSense.Path
