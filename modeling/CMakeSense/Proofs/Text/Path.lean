import CMakeSense.Proofs.Text.Pieces
import CMakeSense.Text.Path

/-! Paths that are made from a directory and names. A path in its shortest spelling (`Path.spell`)
gives its components back, because normalisation leaves them as they are (`Path.Settled`). Names
that are joined to a directory, at once or one after the other, are spelled behind its components
(`Path.join_names`, `Path.foldl_join`), so the last name is what the path ends in
(`Path.base_join`). -/

namespace CMakeSense

theorem Text.join_concat {c : UInt8} {pieces : List Text} (h : pieces ≠ []) (last : Text) :
    join [c] (pieces ++ [last]) = join [c] pieces ++ c :: last := by
  obtain ⟨first, rest, rfl⟩ := List.exists_cons_of_ne_nil h
  rw [List.cons_append, join_eq_flatMap, join_eq_flatMap]
  simp

namespace Path

/-- A name that stands for itself in a path. -/
structure IsName (name : Text) : Prop where
  nonempty : name ≠ []
  current : name ≠ utf8 "."
  parent : name ≠ utf8 ".."
  slash : Ascii.slash ∉ name

instance (name : Text) : Decidable (IsName name) :=
  decidable_of_iff (name ≠ [] ∧ name ≠ utf8 "." ∧ name ≠ utf8 ".." ∧ Ascii.slash ∉ name)
    ⟨fun ⟨a, b, c, d⟩ => ⟨a, b, c, d⟩, fun ⟨a, b, c, d⟩ => ⟨a, b, c, d⟩⟩

variable {rooted : Bool} {kept names : List Text} {dir name path : Text}

theorem push_of_isName (h : IsName name) (rooted : Bool) (kept : List Text) :
    push rooted kept name = name :: kept := by
  simp [push, h.nonempty, h.current, h.parent]

/-- A step of normalisation adds nothing but the component, and that only if it is a name or
`..`. -/
theorem mem_push {rooted : Bool} {kept : List Text} {component : Text}
    (h : name ∈ push rooted kept component) :
    name ∈ kept ∨ name = component ∧ name ≠ [] ∧ name ≠ utf8 "." := by
  unfold push at h
  split at h
  · exact .inl h
  next blank =>
  have added (h : name ∈ component :: kept) :
      name ∈ kept ∨ name = component ∧ name ≠ [] ∧ name ≠ utf8 "." := by
    rcases List.mem_cons.mp h with rfl | h
    · exact .inr ⟨rfl, by simpa using blank⟩
    · exact .inl h
  split at h
  · split at h
    · split at h
      · cases h
      · exact added h
    · split at h
      · exact added h
      · exact .inl (List.mem_cons_of_mem _ h)
  · exact added h

theorem mem_foldl_push {rooted : Bool} {kept pieces : List Text}
    (h : name ∈ pieces.foldl (push rooted) kept) :
    name ∈ kept ∨ name ∈ pieces ∧ name ≠ [] ∧ name ≠ utf8 "." := by
  induction pieces generalizing kept with
  | nil => exact .inl h
  | cons piece pieces ih =>
    rcases ih h with pushed | ⟨later, named⟩
    · rcases mem_push pushed with member | ⟨rfl, named⟩
      · exact .inl member
      · exact .inr ⟨List.mem_cons_self, named⟩
    · exact .inr ⟨List.mem_cons_of_mem piece later, named⟩

/-- The components of a path are among its pieces, and none is empty. -/
theorem mem_components (h : name ∈ components path) :
    name ∈ Text.splitOn Ascii.slash path ∧ name ≠ [] := by
  rcases mem_foldl_push (List.mem_reverse.mp h) with member | ⟨member, nonempty, _⟩
  · cases member
  · exact ⟨member, nonempty⟩

/-- From the root nothing leads up. -/
theorem ne_parent_of_mem_foldl_push {kept pieces : List Text}
    (named : ∀ name ∈ kept, name ≠ utf8 "..") (h : name ∈ pieces.foldl (push true) kept) :
    name ≠ utf8 ".." := by
  induction pieces generalizing kept with
  | nil => exact named name h
  | cons piece pieces ih =>
    refine ih (fun other member => ?_) h
    by_cases up : piece = utf8 ".."
    · have blank : ¬(decide (utf8 ".." = []) || decide (utf8 ".." = utf8 ".")) = true := by decide
      have back : push true kept piece = kept.tail := by
        rw [up, push.eq_def, if_neg blank, if_pos rfl]
        cases kept with
        | nil => rfl
        | cons last rest => exact if_neg (named last List.mem_cons_self)
      exact named other (List.mem_of_mem_tail (back ▸ member))
    · rcases mem_push member with member | ⟨rfl, _⟩
      · exact named other member
      · exact up

theorem isName_of_mem_components (absolute : isAbsolute path = true)
    (h : name ∈ components path) : IsName name := by
  rw [components, absolute, List.mem_reverse] at h
  rcases mem_foldl_push h with member | ⟨member, nonempty, current⟩
  · cases member
  · have parent := ne_parent_of_mem_foldl_push (fun _ none => absurd none List.not_mem_nil) h
    exact ⟨nonempty, current, parent, Text.notMem_of_mem_splitOn member⟩

/-- Components, the last of them first, that normalisation leaves as they are. -/
inductive Settled (rooted : Bool) : List Text → Prop where
  | nil : Settled rooted []
  | cons {kept : List Text} {component : Text} (rest : Settled rooted kept)
      (stays : push rooted kept component = component :: kept) : Settled rooted (component :: kept)

namespace Settled

theorem push (h : Settled rooted kept) (component : Text) :
    Settled rooted (Path.push rooted kept component) := by
  by_cases stays : Path.push rooted kept component = component :: kept
  · exact stays ▸ h.cons stays
  · unfold Path.push at stays ⊢
    split
    · exact h
    next named =>
    rw [if_neg named] at stays
    split
    · next up =>
      rw [if_pos up] at stays
      cases h with
      | nil =>
        simp only at stays ⊢
        split
        · exact .nil
        · next relative => exact absurd (if_neg relative) stays
      | cons rest _ =>
        simp only at stays ⊢
        split
        · next above => exact absurd (if_pos above) stays
        · exact rest
    · next down => exact absurd (if_neg down) stays

theorem foldl_push (h : Settled rooted kept) (pieces : List Text) :
    Settled rooted (pieces.foldl (Path.push rooted) kept) := by
  induction pieces generalizing kept with
  | nil => exact h
  | cons piece pieces ih => exact ih (h.push piece)

theorem foldl_reverse (h : Settled rooted kept) :
    kept.reverse.foldl (Path.push rooted) [] = kept := by
  induction h with
  | nil => rfl
  | cons _ stays ih => rw [List.reverse_cons, List.foldl_append, ih, List.foldl_cons, stays,
      List.foldl_nil]

end Settled

theorem settled_components (path : Text) :
    Settled (isAbsolute path) (components path).reverse := by
  rw [components, List.reverse_reverse]
  exact Settled.nil.foldl_push _

theorem foldl_push_of_isName (h : ∀ name ∈ names, IsName name) :
    names.foldl (push rooted) kept = names.reverse ++ kept := by
  induction names generalizing kept with
  | nil => rfl
  | cons name names ih =>
    rw [List.forall_mem_cons] at h
    rw [List.foldl_cons, push_of_isName h.1, ih h.2, List.reverse_cons, List.append_assoc]
    rfl

theorem Settled.of_isName (h : ∀ name ∈ names, IsName name) : Settled rooted names.reverse := by
  have settled := (@Settled.nil rooted).foldl_push names
  rwa [foldl_push_of_isName h, List.append_nil] at settled

/-- The path that components spell. -/
def spell (rooted : Bool) (components : List Text) : Text :=
  (if rooted then [Ascii.slash] else []) ++ Text.join [Ascii.slash] components

theorem isAbsolute_spell (h : ∀ name ∈ names, name ≠ [] ∧ Ascii.slash ∉ name) :
    isAbsolute (spell rooted names) = rooted := by
  cases rooted with
  | true => rfl
  | false =>
    cases names with
    | nil => rfl
    | cons first rest =>
      obtain ⟨nonempty, slash⟩ := h first List.mem_cons_self
      obtain ⟨c, first, rfl⟩ := List.exists_cons_of_ne_nil nonempty
      have other : c ≠ Ascii.slash := fun eq => slash (eq ▸ List.mem_cons_self)
      rw [spell, Text.join_eq_flatMap]
      simpa [isAbsolute] using other

theorem spell_ne_nil (h : ∀ name ∈ names, name ≠ []) (given : names ≠ []) :
    spell rooted names ≠ [] := by
  obtain ⟨first, rest, rfl⟩ := List.exists_cons_of_ne_nil given
  rw [spell, Text.join_eq_flatMap]
  refine List.append_ne_nil_of_right_ne_nil _ (List.append_ne_nil_of_left_ne_nil ?_ _)
  exact h first List.mem_cons_self

theorem foldl_push_splitOn_join (h : ∀ name ∈ names, Ascii.slash ∉ name) :
    (Text.splitOn Ascii.slash (Text.join [Ascii.slash] names)).foldl (push rooted) kept =
      names.foldl (push rooted) kept := by
  cases names with
  | nil => rfl
  | cons first rest => rw [Text.splitOn_join_of_notMem h]

theorem splitOn_spell (h : ∀ name ∈ names, Ascii.slash ∉ name) (given : names ≠ []) :
    Text.splitOn Ascii.slash (spell rooted names) = (if rooted then [[]] else []) ++ names := by
  have body : Text.splitOn Ascii.slash (Text.join [Ascii.slash] names) = names := by
    obtain ⟨first, rest, rfl⟩ := List.exists_cons_of_ne_nil given
    exact Text.splitOn_join_of_notMem h
  cases rooted with
  | true =>
    rw [spell, if_pos rfl, List.singleton_append, Text.splitOn, if_pos rfl, body]
    rfl
  | false => exact body

theorem mem_spell {b : UInt8} (h : b ∈ spell rooted names) :
    b = Ascii.slash ∨ ∃ name ∈ names, b ∈ name := by
  rcases List.mem_append.mp h with lead | body
  · split at lead
    · exact .inl (List.mem_singleton.mp lead)
    · cases lead
  · exact Text.mem_join body

/-- The components of a path in its shortest spelling. -/
theorem components_spell (settled : Settled rooted names.reverse)
    (h : ∀ name ∈ names, name ≠ [] ∧ Ascii.slash ∉ name) :
    components (spell rooted names) = names := by
  have pieces : ∀ name ∈ names, Ascii.slash ∉ name := fun name member => (h name member).2
  have kept := settled.foldl_reverse
  rw [List.reverse_reverse] at kept
  rw [components, isAbsolute_spell h]
  have body : (Text.splitOn Ascii.slash (spell rooted names)).foldl (push rooted) [] =
      names.foldl (push rooted) [] := by
    cases rooted with
    | true =>
      -- The empty piece before the first slash adds nothing.
      rw [spell, if_pos rfl, List.singleton_append, Text.splitOn, if_pos rfl, List.foldl_cons]
      exact foldl_push_splitOn_join pieces
    | false => exact foldl_push_splitOn_join pieces
  rw [body, kept, List.reverse_reverse]

theorem components_append_names (hdir : dir ≠ []) (h : ∀ name ∈ names, IsName name) :
    components (dir ++ Ascii.slash :: Text.join [Ascii.slash] names) = components dir ++ names := by
  rw [components, isAbsolute_append hdir, Text.splitOn_append, List.foldl_append,
    foldl_push_splitOn_join fun name member => (h name member).slash, foldl_push_of_isName h,
    List.reverse_append, List.reverse_reverse]
  rfl

/-- The shortest spelling of a path other than the current directory. -/
theorem clean_eq_spell (h : isAbsolute path = true ∨ components path ≠ []) :
    clean path = spell (isAbsolute path) (components path) := by
  unfold clean
  split
  · next absolute =>
    rw [absolute]
    rfl
  · next relative =>
    have body : spell false (components path) ≠ [] :=
      spell_ne_nil (fun name member => (mem_components member).2) (h.resolve_left relative)
    rw [Bool.eq_false_iff.mpr relative]
    exact if_neg body

/-- A path below a directory is spelled behind the components of the directory. -/
theorem join_names (hdir : dir ≠ []) (h : ∀ name ∈ names, IsName name) (given : names ≠ []) :
    join dir (Text.join [Ascii.slash] names) =
      spell (isAbsolute dir) (components dir ++ names) := by
  have below := components_append_names hdir h
  have named : components dir ++ names ≠ [] := List.append_ne_nil_of_right_ne_nil _ given
  rw [join, if_neg hdir, clean_eq_spell (.inr (below ▸ named)), below, isAbsolute_append hdir]

/-- The shortest spelling of a name in a directory. -/
theorem join_eq (hdir : dir ≠ []) (h : IsName name) :
    join dir name = spell (isAbsolute dir) (components dir ++ [name]) :=
  join_names hdir (List.forall_mem_singleton.mpr h) (List.cons_ne_nil _ _)

/-- What stands between the slashes of the shortest spelling. -/
theorem mem_spelled (h : ∀ name ∈ names, IsName name) {piece : Text}
    (member : piece ∈ components dir ++ names) : piece ≠ [] ∧ Ascii.slash ∉ piece := by
  rcases List.mem_append.mp member with member | member
  · obtain ⟨member, nonempty⟩ := mem_components member
    exact ⟨nonempty, Text.notMem_of_mem_splitOn member⟩
  · exact ⟨(h piece member).nonempty, (h piece member).slash⟩

theorem isAbsolute_join (hdir : dir ≠ []) (h : IsName name) :
    isAbsolute (join dir name) = isAbsolute dir := by
  rw [join_eq hdir h]
  exact isAbsolute_spell fun _ member => mem_spelled (List.forall_mem_singleton.mpr h) member

theorem components_join (hdir : dir ≠ []) (h : IsName name) :
    components (join dir name) = components dir ++ [name] := by
  rw [join_eq hdir h]
  refine components_spell ?_ fun piece member =>
    mem_spelled (List.forall_mem_singleton.mpr h) member
  rw [List.reverse_append]
  exact .cons (settled_components dir) (push_of_isName h ..)

theorem reverse_dropWhile (h : IsName name) (t : Text) :
    ((t ++ name).reverse.dropWhile (· = Ascii.slash)).reverse = t ++ name := by
  obtain ⟨front, last, rfl⟩ := List.eq_nil_or_concat name |>.resolve_left h.nonempty
  have other : last ≠ Ascii.slash := by
    rintro rfl
    exact h.slash (by simp)
  simp [List.concat_eq_append, other]

theorem base_of_isName (h : IsName name) : base name = name := by
  have trimmed := reverse_dropWhile h []
  have cut : Text.cutLast? Ascii.slash name = none := by
    rw [Text.cutLast?, Text.cut?_of_notMem fun member => h.slash (List.mem_reverse.mp member)]
    rfl
  rw [List.nil_append] at trimmed
  simp only [base, if_neg h.nonempty, trimmed, cut]

theorem cutLast?_append (h : Ascii.slash ∉ name) (t : Text) :
    Text.cutLast? Ascii.slash (t ++ Ascii.slash :: name) = some (t, name) := by
  rw [Text.cutLast?, List.reverse_append, List.reverse_cons, List.append_assoc,
    List.singleton_append, Text.cut?_append fun member => h (List.mem_reverse.mp member)]
  simp

theorem base_append (h : IsName name) (t : Text) : base (t ++ Ascii.slash :: name) = name := by
  have trimmed := reverse_dropWhile h (t ++ [Ascii.slash])
  have nonempty : t ++ Ascii.slash :: name ≠ [] := by simp
  rw [List.append_assoc, List.singleton_append] at trimmed
  simp only [base, if_neg nonempty, trimmed, cutLast?_append h.slash]

theorem base_join (hdir : dir ≠ []) (h : IsName name) : base (join dir name) = name := by
  rw [join_eq hdir h, spell]
  by_cases top : components dir = []
  · rw [top]
    split
    · exact base_append h []
    · exact base_of_isName h
  · rw [Text.join_concat top, ← List.append_assoc]
    exact base_append h _

theorem join_ne_nil (hdir : dir ≠ []) (h : IsName name) : join dir name ≠ [] := by
  rw [join_eq hdir h]
  refine spell_ne_nil (fun piece member => ?_) (by simp)
  exact (mem_spelled (List.forall_mem_singleton.mpr h) member).1

/-- Names joined to a directory one after the other are spelled behind its components. -/
theorem foldl_join (hdir : dir ≠ []) (h : ∀ name ∈ names, IsName name) (given : names ≠ []) :
    names.foldl join dir = spell (isAbsolute dir) (components dir ++ names) := by
  induction names generalizing dir with
  | nil => exact absurd rfl given
  | cons name names ih =>
    rw [List.forall_mem_cons] at h
    cases names with
    | nil => exact join_eq hdir h.1
    | cons next names =>
      rw [List.foldl_cons, ih (join_ne_nil hdir h.1) h.2 (List.cons_ne_nil _ _),
        isAbsolute_join hdir h.1, components_join hdir h.1, List.append_assoc]
      rfl

end Path

end CMakeSense
