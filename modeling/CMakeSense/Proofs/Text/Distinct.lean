import CMakeSense.Text.Basic
import Mathlib.Data.List.Forall2

/-! First occurrences under a key. Of the members with one key the first is kept: no text is made up
(`Text.mem_of_mem_distinctBy`), and every member has a text of its key among those kept
(`Text.exists_mem_distinctBy`). Of texts that are found at numbered places, those kept are the ones
at the first places of their keys, in order (`Text.firstOccurrences_distinctBy`), and no other list
of texts is that (`Text.FirstOccurrences.unique`). -/

namespace CMakeSense.Text

variable {key : Text → Text} {t : Text} {ts : List Text}

theorem mem_of_mem_distinctBy_go {seen : List Text} (h : t ∈ distinctBy.go key seen ts) :
    t ∈ ts ∧ key t ∉ seen := by
  induction ts generalizing seen with
  | nil => cases h
  | cons u ts ih =>
    rw [distinctBy.go] at h
    split at h
    · obtain ⟨member, fresh⟩ := ih h
      exact ⟨List.mem_cons_of_mem u member, fresh⟩
    · next fresh =>
      rcases List.mem_cons.mp h with rfl | later
      · exact ⟨List.mem_cons_self, fresh⟩
      · obtain ⟨member, unseen⟩ := ih later
        rw [List.mem_cons, not_or] at unseen
        exact ⟨List.mem_cons_of_mem u member, unseen.2⟩

theorem exists_mem_distinctBy_go {seen : List Text} (h : t ∈ ts) (fresh : key t ∉ seen) :
    ∃ u ∈ distinctBy.go key seen ts, key u = key t := by
  induction ts generalizing seen with
  | nil => cases h
  | cons u ts ih =>
    rw [distinctBy.go]
    by_cases same : key u = key t
    · rw [if_neg (same ▸ fresh)]
      exact ⟨u, List.mem_cons_self, same⟩
    have later : t ∈ ts := by
      rcases List.mem_cons.mp h with rfl | later
      · exact absurd rfl same
      · exact later
    split
    · exact ih later fresh
    · have unseen : key t ∉ key u :: seen := by
        rw [List.mem_cons, not_or]
        exact ⟨Ne.symm same, fresh⟩
      obtain ⟨v, member, sameKey⟩ := ih later unseen
      exact ⟨v, List.mem_cons_of_mem u member, sameKey⟩

theorem mem_of_mem_distinctBy (h : t ∈ distinctBy key ts) : t ∈ ts :=
  (mem_of_mem_distinctBy_go h).1

theorem exists_mem_distinctBy (key : Text → Text) (h : t ∈ ts) :
    ∃ u ∈ distinctBy key ts, key u = key t :=
  exists_mem_distinctBy_go h List.not_mem_nil

theorem mem_distinctBy_go {seen : List Text} :
    t ∈ distinctBy.go id seen ts ↔ t ∈ ts ∧ t ∉ seen := by
  constructor
  · exact mem_of_mem_distinctBy_go
  · rintro ⟨member, fresh⟩
    have unseen : id t ∉ seen := fresh
    obtain ⟨u, kept, rfl⟩ := exists_mem_distinctBy_go member unseen
    exact kept

theorem mem_distinct : t ∈ distinct ts ↔ t ∈ ts := by
  rw [distinct, distinctBy, mem_distinctBy_go]
  simp

/-- The texts are those at the first places, in order: a place counts if a text stands at it and no
text with the same key stands at a place before. -/
def FirstOccurrences (key : Text → Text) (At : Nat → Text → Prop) (ts : List Text) : Prop :=
  ∃ places : List Nat, places.Pairwise (· < ·) ∧ List.Forall₂ At places ts ∧
    ∀ i, i ∈ places ↔ ∃ t, At i t ∧ ∀ j < i, ∀ u, At j u → key u ≠ key t

/-- Where each place has one text, there is one list of first occurrences. -/
theorem FirstOccurrences.unique {At : Nat → Text → Prop} {us : List Text}
    (one : ∀ {i t u}, At i t → At i u → t = u) (ht : FirstOccurrences key At ts)
    (hu : FirstOccurrences key At us) : ts = us := by
  obtain ⟨places, ordered, stand, first⟩ := ht
  obtain ⟨places', ordered', stand', first'⟩ := hu
  have members : ∀ i, i ∈ places ↔ i ∈ places' := fun i => (first i).trans (first' i).symm
  have nodup {places : List Nat} (h : places.Pairwise (· < ·)) : places.Nodup :=
    h.imp Nat.ne_of_lt
  obtain rfl : places = places' := by
    refine List.Perm.eq_of_pairwise (fun i j _ _ ij ji => ?_) ordered ordered'
      ((List.perm_ext_iff_of_nodup (nodup ordered) (nodup ordered')).mpr members)
    exact absurd ji (Nat.lt_asymm ij)
  clear ordered ordered' first first' members
  induction stand generalizing us with
  | nil =>
    cases stand'
    rfl
  | cons here _ ih =>
    cases stand' with
    | cons here' later' => rw [one here here', ih later']

/-- Going through places in order, with the keys of some earlier ones seen already. -/
theorem exists_places_distinctBy_go (key : Text → Text) {places : List Nat}
    (ordered : places.Pairwise (· < ·)) (text? : Nat → Option Text) (seen : List Text) :
    ∃ kept : List Nat, kept.Pairwise (· < ·) ∧
      List.Forall₂ (fun i t => text? i = some t) kept
        (distinctBy.go key seen (places.filterMap text?)) ∧
      ∀ i, i ∈ kept ↔ i ∈ places ∧ ∃ t, text? i = some t ∧ key t ∉ seen ∧
        ∀ j ∈ places, j < i → ∀ u, text? j = some u → key u ≠ key t := by
  induction places generalizing seen with
  | nil => exact ⟨[], .nil, .nil, by simp⟩
  | cons first places ih =>
    obtain ⟨before, ordered⟩ := List.pairwise_cons.mp ordered
    cases found : text? first with
    | none =>
      obtain ⟨kept, increasing, stand, members⟩ := ih ordered seen
      refine ⟨kept, increasing, ?_, fun i => ?_⟩
      · rwa [List.filterMap_cons_none found]
      · rw [members]
        grind
    | some t =>
      rw [List.filterMap_cons_some found, distinctBy.go]
      by_cases old : key t ∈ seen
      · obtain ⟨kept, increasing, stand, members⟩ := ih ordered seen
        refine ⟨kept, increasing, ?_, fun i => ?_⟩
        · rwa [if_pos old]
        · rw [members]
          grind
      · obtain ⟨kept, increasing, stand, members⟩ := ih ordered (key t :: seen)
        refine ⟨first :: kept, ?_, ?_, fun i => ?_⟩
        · refine List.pairwise_cons.mpr ⟨fun i member => ?_, increasing⟩
          exact before i ((members i).mp member).1
        · rw [if_neg old]
          exact .cons found stand
        · rw [List.mem_cons, members]
          grind

/-- What is kept of the texts at numbered places are the first occurrences. -/
theorem firstOccurrences_distinctBy (key : Text → Text) {At : Nat → Text → Prop}
    {text? : Nat → Option Text} {n : Nat} (at_iff : ∀ i t, At i t ↔ i < n ∧ text? i = some t) :
    FirstOccurrences key At (distinctBy key ((List.range n).filterMap text?)) := by
  have ordered : (List.range n).Pairwise (· < ·) := List.pairwise_lt_range
  obtain ⟨kept, increasing, stand, members⟩ := exists_places_distinctBy_go key ordered text? []
  refine ⟨kept, increasing, ?_, fun i => ?_⟩
  · refine List.forall₂_iff_get.mpr ⟨stand.length_eq, fun k hk hk' => (at_iff ..).mpr ⟨?_, ?_⟩⟩
    · exact List.mem_range.mp ((members _).mp (List.get_mem ..)).1
    · exact stand.get hk hk'
  · simp only [members, at_iff, List.mem_range, List.not_mem_nil, not_false_eq_true, true_and]
    grind

end CMakeSense.Text
