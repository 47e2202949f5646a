import CMakeSense.Catalog.Variable
import Mathlib.Data.List.Chain

/-! Bisection of a catalog. The search keeps the first place whose member is not below the name
between two ends: every member before the lower end is below the name, and no member from the upper
end on is (`Encloses`). One comparison in the middle settles all the members on one side of it, by
the order of the catalog, and moves that end over them. Where the ends meet they cut the catalog in
two (`Encloses.bisect`), so a name of the catalog stands right behind the cut. Both catalogs of
variables are in byte order. -/

namespace CMakeSense.Variable

/-- No member is above its right neighbour in byte order. -/
def InOrder (sorted : Array Text) : Prop := sorted.toList.IsChain (· ≤ ·)

instance (sorted : Array Text) : Decidable (InOrder sorted) :=
  inferInstanceAs (Decidable (sorted.toList.IsChain (· ≤ ·)))

/-- The cut between the members below the name and the others is at `lo`, at `hi` or between
them. -/
structure Encloses (sorted : Array Text) (name : Text) (lo hi : Nat) : Prop where
  le : lo ≤ hi
  le_size : hi ≤ sorted.size
  below : ∀ {i t}, sorted[i]? = some t → i < lo → t < name
  above : ∀ {i t}, sorted[i]? = some t → hi ≤ i → name ≤ t

section Search

variable {sorted : Array Text} {name : Text}

theorem InOrder.le {i j : Nat} {t u : Text} (order : InOrder sorted) (ht : sorted[i]? = some t)
    (hu : sorted[j]? = some u) (h : i ≤ j) : t ≤ u := by
  obtain ⟨hi, rfl⟩ := Array.getElem?_eq_some_iff.mp ht
  obtain ⟨hj, rfl⟩ := Array.getElem?_eq_some_iff.mp hu
  rcases Nat.lt_or_eq_of_le h with before | rfl
  · exact List.pairwise_iff_getElem.mp order.pairwise i j hi hj before
  · exact List.le_refl _

namespace Encloses

variable {lo hi mid : Nat} {t : Text}

theorem whole (sorted : Array Text) (name : Text) : Encloses sorted name 0 sorted.size where
  le := Nat.zero_le _
  le_size := Nat.le_refl _
  below _ h := absurd h (Nat.not_lt_zero _)
  above ht h := by
    obtain ⟨inside, _⟩ := Array.getElem?_eq_some_iff.mp ht
    omega

/-- A member below the name settles the members before it. -/
theorem raise (h : Encloses sorted name lo hi) (order : InOrder sorted) (inside : mid < hi)
    (ht : sorted[mid]? = some t) (less : t < name) : Encloses sorted name (mid + 1) hi where
  le := inside
  le_size := h.le_size
  below hu before := List.lt_of_le_of_lt (order.le hu ht (Nat.le_of_lt_succ before)) less
  above := h.above

/-- A member that is not below the name settles the members behind it. -/
theorem lower (h : Encloses sorted name lo hi) (order : InOrder sorted) (inside : lo ≤ mid)
    (ht : sorted[mid]? = some t) (notLess : ¬t < name) : Encloses sorted name lo mid where
  le := inside
  le_size := by
    obtain ⟨within, _⟩ := Array.getElem?_eq_some_iff.mp ht
    exact Nat.le_of_lt within
  below := h.below
  above hu behind := List.le_trans (List.not_lt.mp notLess) (order.le ht hu behind)

/-- Between ends that are apart there is a member to compare the name with. -/
theorem getElem?_middle (h : Encloses sorted name lo hi) (apart : lo < hi) :
    sorted[(lo + hi) / 2]? = some (sorted.getD ((lo + hi) / 2) []) := by
  have within : (lo + hi) / 2 < sorted.size := by
    have := h.le_size
    omega
  rw [Array.getD_eq_getD_getElem?, Array.getElem?_eq_getElem within, Option.getD_some]

/-- The ends meet at the cut. -/
theorem bisect (h : Encloses sorted name lo hi) (order : InOrder sorted) :
    Encloses sorted name (Variable.bisect sorted name lo hi)
      (Variable.bisect sorted name lo hi) := by
  fun_induction Variable.bisect sorted name lo hi with
  | case1 lo hi apart mid less ih =>
    apply ih
    exact h.raise order (by omega) (h.getElem?_middle apart) less
  | case2 lo hi apart mid notLess ih =>
    apply ih
    exact h.lower order (by omega) (h.getElem?_middle apart) notLess
  | case3 lo hi meet =>
    have same : lo = hi := Nat.le_antisymm h.le (Nat.le_of_not_lt meet)
    rwa [← same] at h

/-- A name of the catalog stands right behind the cut. -/
theorem getElem?_of_mem {place : Nat} (h : Encloses sorted name place place)
    (order : InOrder sorted) (member : name ∈ sorted) : sorted[place]? = some name := by
  obtain ⟨i, here⟩ := Array.mem_iff_getElem?.mp member
  have behind : place ≤ i := by
    apply Nat.le_of_not_lt
    intro before
    exact List.lt_irrefl name (h.below here before)
  obtain ⟨inside, _⟩ := Array.getElem?_eq_some_iff.mp here
  -- The name stands behind the member at the cut, which is not below it.
  have found : sorted[place]? = some sorted[place] := Array.getElem?_eq_getElem (by omega)
  have same : sorted[place] = name :=
    List.le_antisymm (order.le found here behind) (h.above found (Nat.le_refl _))
  rw [found, same]

end Encloses

/-- Only the names of a catalog are found in it, and in a catalog in order all of them. -/
theorem isListed_iff (order : InOrder sorted) :
    isListed sorted name = true ↔ name.toUpper ∈ sorted := by
  rw [isListed, beq_iff_eq]
  constructor
  · exact Array.mem_of_getElem?
  · intro member
    exact ((Encloses.whole sorted _).bisect order).getElem?_of_mem order member

end Search

/-- Without the order a member can be missed. -/
example : utf8 "B" ∈ #[utf8 "B", utf8 "A"] ∧ isListed #[utf8 "B", utf8 "A"] (utf8 "B") = false := by
  decide +kernel

theorem inOrder_standard : InOrder standard := by
  rw [InOrder, standard, Array.toList_map]
  decide +kernel

theorem inOrder_environment : InOrder environment := by
  rw [InOrder, environment, Array.toList_map]
  decide +kernel

/-- **Bisection decides membership.** In every catalog in byte order a name is listed exactly if its
upper-case form is a member. Both catalogs of variables are in byte order, so this is how a standard
variable and an environment variable are told from other names. -/
theorem bisection_decides_membership (name : Text) :
    (∀ sorted, InOrder sorted → (isListed sorted name = true ↔ name.toUpper ∈ sorted)) ∧
      InOrder standard ∧ (isStandard name = true ↔ name.toUpper ∈ standard) ∧
      InOrder environment ∧ (isEnvironment name = true ↔ name.toUpper ∈ environment) := by
  refine ⟨fun sorted order => isListed_iff order, inOrder_standard, ?_, inOrder_environment, ?_⟩
  · exact isListed_iff inOrder_standard
  · exact isListed_iff inOrder_environment

/-- A catalog with a repeated member and with letters of several bytes: names at both ends and in
the middle are listed in any letter case, names before, between and behind them are not. -/
theorem bisection_decides_membership_of_accented_names :
    let catalog := #[utf8 "ALPHA", utf8 "BETA", utf8 "BETA", utf8 "\u00c9T\u00c9", utf8 "\u0394"]
    let listed := [utf8 "alpha", utf8 "Beta", utf8 "\u00e9t\u00c9", utf8 "\u03b4"]
    let others := [utf8 "", utf8 "alph", utf8 "beta_", utf8 "\u00e9te", utf8 "\u03b5"]
    InOrder catalog ∧ (∀ name ∈ listed, isListed catalog name = true) ∧
      ∀ name ∈ others, ¬isListed catalog name = true := by
  intro catalog listed others
  have order : InOrder catalog := by decide +kernel
  refine ⟨order, fun name member => ?_, fun name member found => ?_⟩
  · have upper : ∀ name ∈ listed, name.toUpper ∈ catalog := by decide +kernel
    exact ((bisection_decides_membership name).1 catalog order).mpr (upper name member)
  · have upper : ∀ name ∈ others, name.toUpper ∉ catalog := by decide +kernel
    exact upper name member (((bisection_decides_membership name).1 catalog order).mp found)

end CMakeSense.Variable
