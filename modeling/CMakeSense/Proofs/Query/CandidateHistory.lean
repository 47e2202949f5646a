import CMakeSense.Query.Candidates
import Mathlib.Data.List.Nodup

/-! Candidate lists and how they came about. A list is made by additions and exclusions; its history
is the sequence of them, one text at a time (`Edit.events`). What the list holds can be told from
the history alone: a text is there with the kind of its first addition since it was last excluded
(`Inserts`), in the order of these additions (`follows_ofEdits`). The texts that count as there are
those of the candidates at any time (`inStep_ofEdits`). Presentation by name goes by a strict order
of the texts (`Candidate.Before`), so it does not show the history at all. -/

namespace CMakeSense

namespace Candidate

/-- Earlier by name: by the texts in lower case, and by the texts themselves where these agree. -/
def Before (a b : Candidate) : Prop :=
  a.text.toLower < b.text.toLower ∨ a.text.toLower = b.text.toLower ∧ a.text < b.text

theorem Before.asymm {a b : Candidate} (ab : a.Before b) : ¬ b.Before a := by
  rintro (ba | ⟨same, ba⟩)
  · rcases ab with ab | ⟨same, _⟩
    · exact List.lt_asymm ab ba
    · exact List.lt_irrefl _ (same ▸ ba)
  · rcases ab with ab | ⟨_, ab⟩
    · exact List.lt_irrefl _ (same ▸ ab)
    · exact List.lt_asymm ab ba

theorem precedes_iff {a b : Candidate} :
    a.precedes b = true ↔ a.Before b ∨ a.text = b.text := by
  unfold precedes Before
  split
  · next same =>
    rw [decide_eq_true_iff, List.le_iff_lt_or_eq]
    simp [same, List.lt_irrefl]
  · next other =>
    have differ : a.text ≠ b.text := fun same => other (congrArg Text.toLower same)
    rw [decide_eq_true_iff, List.le_iff_lt_or_eq]
    simp [other, differ]

theorem precedes_trans {a b c : Candidate} (ab : a.precedes b = true) (bc : b.precedes c = true) :
    a.precedes c = true := by
  rw [precedes_iff] at ab bc ⊢
  rcases ab with ab | ab
  · rcases bc with bc | bc
    · refine .inl ?_
      rcases ab with ab | ⟨sameab, ab⟩
      · rcases bc with bc | ⟨samebc, _⟩
        · exact .inl (List.lt_trans ab bc)
        · exact .inl (samebc ▸ ab)
      · rcases bc with bc | ⟨samebc, bc⟩
        · exact .inl (sameab ▸ bc)
        · exact .inr ⟨sameab.trans samebc, List.lt_trans ab bc⟩
    · exact .inl (by simpa only [Before, bc] using ab)
  · simpa only [Before, ab] using bc

theorem precedes_total (a b : Candidate) : (a.precedes b || b.precedes a) = true := by
  unfold precedes
  by_cases same : a.text.toLower = b.text.toLower
  · simpa [same] using List.le_total a.text b.text
  · simpa [same, Ne.symm same] using List.le_total a.text.toLower b.text.toLower

end Candidate

namespace Candidates

/-- An operation on a candidate list. -/
inductive Edit where
  | add (text : Text) (kind : CandidateKind)
  | addAll (texts : List Text) (kind : CandidateKind)
  | exclude (texts : List Text)

def Edit.apply (list : Candidates) : Edit → Candidates
  | .add text kind => list.add text kind
  | .addAll texts kind => list.addAll texts kind
  | .exclude texts => list.exclude texts

/-- The list that some operations make of an empty one. -/
def ofEdits (byName : Bool) (edits : List Edit) : Candidates :=
  edits.foldl Edit.apply (if byName then .empty else .unordered)

/-- What happens to one text. -/
inductive Event where
  | added (text : Text) (kind : CandidateKind)
  | excluded (text : Text)
  deriving DecidableEq

/-- What an operation does, one text at a time. -/
def Edit.events : Edit → List Event
  | .add text kind => [.added text kind]
  | .addAll texts kind => texts.map (.added · kind)
  | .exclude texts => texts.map .excluded

/-- Place `i` of a history holds the first addition of a text since the text was last excluded. -/
structure Inserts (history : List Event) (i : Nat) (text : Text) (kind : CandidateKind) :
    Prop where
  added : history[i]? = some (.added text kind)
  kept : ∀ j, i < j → history[j]? ≠ some (.excluded text)
  first : ∀ j other, j < i → history[j]? = some (.added text other) →
    ∃ m, j < m ∧ m < i ∧ history[m]? = some (.excluded text)

namespace Inserts

variable {history : List Event} {event : Event} {i j : Nat} {text : Text}
  {kind other : CandidateKind}

theorem lt_length (h : Inserts history i text kind) : i < history.length :=
  (List.getElem?_eq_some_iff.mp h.added).1

/-- A text stands at one place of its history, with one kind. -/
theorem unique (hi : Inserts history i text kind) (hj : Inserts history j text other) :
    i = j ∧ kind = other := by
  have same : i = j := by
    rcases Nat.lt_trichotomy i j with before | same | before
    · obtain ⟨m, behind, _, excluded⟩ := hj.first i kind before hi.added
      exact absurd excluded (hi.kept m behind)
    · exact same
    · obtain ⟨m, behind, _, excluded⟩ := hi.first j other before hj.added
      exact absurd excluded (hj.kept m behind)
  subst same
  cases hi.added.symm.trans hj.added
  exact ⟨rfl, rfl⟩

/-- A text that was added and not excluded since has been inserted. -/
theorem exists_of_added (added : history[j]? = some (.added text kind))
    (kept : ∀ m, j < m → history[m]? ≠ some (.excluded text)) :
    ∃ i other, Inserts history i text other := by
  induction j using Nat.strongRecOn generalizing kind with
  | _ j ih =>
    by_cases first : ∀ l other, l < j → history[l]? = some (.added text other) →
        ∃ m, l < m ∧ m < j ∧ history[m]? = some (.excluded text)
    · exact ⟨j, kind, added, kept, first⟩
    · -- An addition before this one has not been undone either.
      push Not at first
      obtain ⟨l, other, before, earlier, standing⟩ := first
      refine ih l before earlier fun m behind excluded => ?_
      rcases Nat.lt_trichotomy m j with inside | rfl | after
      · exact standing m behind inside excluded
      · cases added.symm.trans excluded
      · exact kept m after excluded

theorem concat (h : Inserts history i text kind) (keeps : event ≠ .excluded text) :
    Inserts (history ++ [event]) i text kind := by
  have bound := h.lt_length
  refine ⟨?_, fun j behind => ?_, fun j other before earlier => ?_⟩
  · rw [List.getElem?_append_left bound]
    exact h.added
  · rw [List.getElem?_append]
    split
    · exact h.kept j behind
    · rw [List.getElem?_singleton]
      split
      · exact fun excluded => keeps (Option.some.inj excluded)
      · nofun
  · rw [List.getElem?_append_left (by omega)] at earlier
    obtain ⟨m, behind, inside, excluded⟩ := h.first j other before earlier
    exact ⟨m, behind, inside, by rwa [List.getElem?_append_left (by omega)]⟩

theorem of_concat (h : Inserts (history ++ [event]) i text kind) (bound : i < history.length) :
    Inserts history i text kind ∧ event ≠ .excluded text := by
  refine ⟨⟨?_, fun j behind => ?_, fun j other before earlier => ?_⟩, ?_⟩
  · have added := h.added
    rwa [List.getElem?_append_left bound] at added
  · have kept := h.kept j behind
    by_cases inside : j < history.length
    · rwa [List.getElem?_append_left inside] at kept
    · rw [List.getElem?_eq_none (Nat.le_of_not_lt inside)]
      nofun
  · have here : (history ++ [event])[j]? = history[j]? := List.getElem?_append_left (by omega)
    obtain ⟨m, behind, inside, excluded⟩ := h.first j other before (here.trans earlier)
    exact ⟨m, behind, inside, by rwa [List.getElem?_append_left (by omega)] at excluded⟩
  · have kept := h.kept history.length bound
    rw [List.getElem?_concat_length] at kept
    exact fun excluded => kept (congrArg some excluded)

/-- What one more event leaves of the additions, and when it is one itself. -/
theorem concat_iff : Inserts (history ++ [event]) i text kind ↔
    Inserts history i text kind ∧ event ≠ .excluded text ∨
      i = history.length ∧ event = .added text kind ∧
        ∀ j other, ¬ Inserts history j text other := by
  constructor
  · intro h
    have bound := h.lt_length
    rw [List.length_append, List.length_singleton] at bound
    rcases Nat.lt_succ_iff_lt_or_eq.mp bound with earlier | rfl
    · exact .inl (h.of_concat earlier)
    · have last := h.added
      rw [List.getElem?_concat_length] at last
      refine .inr ⟨rfl, Option.some.inj last, fun j other hj => ?_⟩
      have before := hj.lt_length
      have added : (history ++ [event])[j]? = some (.added text other) := by
        rw [List.getElem?_append_left before]
        exact hj.added
      obtain ⟨m, behind, inside, excluded⟩ := h.first j other before added
      rw [List.getElem?_append_left inside] at excluded
      exact hj.kept m behind excluded
  · rintro (⟨h, keeps⟩ | ⟨rfl, rfl, none⟩)
    · exact h.concat keeps
    · refine ⟨List.getElem?_concat_length, fun j behind => ?_, fun j other before added => ?_⟩
      · rw [List.getElem?_eq_none]
        · nofun
        · rw [List.length_append, List.length_singleton]
          exact behind
      · rw [List.getElem?_append_left before] at added
        by_contra standing
        push Not at standing
        obtain ⟨i, kind, inserted⟩ := exists_of_added added fun m behind excluded => by
          have inside := (List.getElem?_eq_some_iff.mp excluded).1
          refine standing m behind inside ?_
          rw [List.getElem?_append_left inside]
          exact excluded
        exact none i kind inserted

end Inserts

/-- The candidates are those that a history inserts, in the order in which it does. -/
structure Follows (items : List Candidate) (history : List Event) : Prop where
  mem_iff : ∀ text kind, ⟨text, kind⟩ ∈ items ↔ text ≠ [] ∧ ∃ i, Inserts history i text kind
  ordered : items.Pairwise fun a b => ∃ i j, i < j ∧ Inserts history i a.text a.kind ∧
    Inserts history j b.text b.kind

namespace Follows

variable {items : List Candidate} {history : List Event} {event : Event}

theorem exists_inserts (h : Follows items history) {item : Candidate} (member : item ∈ items) :
    ∃ i, Inserts history i item.text item.kind :=
  ((h.mem_iff item.text item.kind).mp member).2

theorem nodup (h : Follows items history) : (items.map (·.text)).Nodup := by
  rw [List.Nodup, List.pairwise_map]
  refine h.ordered.imp fun ⟨i, j, before, hi, hj⟩ same => ?_
  rw [same] at hi
  exact Nat.ne_of_lt before (hi.unique hj).1

/-- The order stays as long as no candidate is excluded. -/
theorem pairwise_concat (h : Follows items history)
    (keeps : ∀ item ∈ items, event ≠ .excluded item.text) :
    items.Pairwise fun a b => ∃ i j, i < j ∧ Inserts (history ++ [event]) i a.text a.kind ∧
      Inserts (history ++ [event]) j b.text b.kind := by
  refine h.ordered.imp_of_mem fun {a b} ha hb ⟨i, j, before, hi, hj⟩ => ?_
  exact ⟨i, j, before, hi.concat (keeps a ha), hj.concat (keeps b hb)⟩

/-- An addition of the empty text, or of one that is there, changes nothing. -/
theorem added_of_skipped {text : Text} {kind : CandidateKind} (h : Follows items history)
    (skipped : text = [] ∨ ∃ item ∈ items, item.text = text) :
    Follows items (history ++ [.added text kind]) := by
  refine ⟨fun other kind' => ?_, h.pairwise_concat fun _ _ => nofun⟩
  rw [h.mem_iff]
  refine and_congr_right fun nonempty => exists_congr fun i => ?_
  rw [Inserts.concat_iff]
  constructor
  · exact fun inserted => .inl ⟨inserted, nofun⟩
  · rintro (⟨inserted, _⟩ | ⟨_, same, none⟩)
    · exact inserted
    · cases same
      rcases skipped with empty | ⟨item, member, rfl⟩
      · exact absurd empty nonempty
      · obtain ⟨j, inserted⟩ := h.exists_inserts member
        exact absurd inserted (none j _)

theorem added_of_new {text : Text} {kind : CandidateKind} (h : Follows items history)
    (nonempty : text ≠ []) (new : ∀ item ∈ items, item.text ≠ text) :
    Follows (items ++ [⟨text, kind⟩]) (history ++ [.added text kind]) := by
  have absent : ∀ j other, ¬ Inserts history j text other := fun j other inserted =>
    new _ ((h.mem_iff text other).mpr ⟨nonempty, j, inserted⟩) rfl
  have last : Inserts (history ++ [.added text kind]) history.length text kind :=
    Inserts.concat_iff.mpr (.inr ⟨rfl, rfl, absent⟩)
  constructor
  · intro other kind'
    rw [List.mem_append, List.mem_singleton, h.mem_iff]
    constructor
    · rintro (⟨named, i, inserted⟩ | same)
      · exact ⟨named, i, inserted.concat nofun⟩
      · cases same
        exact ⟨nonempty, _, last⟩
    · rintro ⟨named, i, inserted⟩
      rcases Inserts.concat_iff.mp inserted with ⟨earlier, _⟩ | ⟨_, same, _⟩
      · exact .inl ⟨named, i, earlier⟩
      · cases same
        exact .inr rfl
  · rw [List.pairwise_append]
    refine ⟨h.pairwise_concat fun _ _ => nofun, List.pairwise_singleton .., fun a ha b hb => ?_⟩
    rw [List.mem_singleton] at hb
    subst hb
    obtain ⟨i, inserted⟩ := h.exists_inserts ha
    exact ⟨i, _, inserted.lt_length, inserted.concat nofun, last⟩

theorem excluded (h : Follows items history) (text : Text) :
    Follows (items.filter fun item => item.text ≠ text) (history ++ [.excluded text]) := by
  constructor
  · intro other kind
    rw [List.mem_filter, h.mem_iff, and_assoc]
    refine and_congr_right fun _ => ?_
    constructor
    · rintro ⟨⟨i, inserted⟩, differs⟩
      refine ⟨i, inserted.concat fun same => ?_⟩
      cases same
      simp at differs
    · rintro ⟨i, inserted⟩
      rcases Inserts.concat_iff.mp inserted with ⟨earlier, keeps⟩ | ⟨_, same, _⟩
      · refine ⟨⟨i, earlier⟩, decide_eq_true fun same => keeps ?_⟩
        exact congrArg Event.excluded (Eq.symm same)
      · cases same
  · refine (h.ordered.filter _).imp_of_mem fun {a b} ha hb ⟨i, j, before, hi, hj⟩ => ?_
    have keeps {item : Candidate} (member : item ∈ items.filter fun item => item.text ≠ text) :
        Event.excluded text ≠ .excluded item.text := by
      intro same
      cases same
      simp at member
    exact ⟨i, j, before, hi.concat (keeps ha), hj.concat (keeps hb)⟩

end Follows

theorem mem_foldl_filter_ne {items : List Candidate} {seen : List Text} {text : Text} :
    text ∈ items.foldl (fun seen item => seen.filter (· ≠ item.text)) seen ↔
      text ∈ seen ∧ ∀ item ∈ items, item.text ≠ text := by
  induction items generalizing seen with
  | nil => simp
  | cons item items ih =>
    rw [List.foldl_cons, ih, List.mem_filter, decide_eq_true_iff, List.forall_mem_cons, and_assoc,
      ne_comm]

/-- A text is left when no candidate that goes has it. -/
theorem mem_seen_exclude {list : Candidates} {texts : List Text} {text : Text} :
    text ∈ (list.exclude texts).seen ↔
      text ∈ list.seen ∧ ∀ item ∈ list.items, item.text ∈ texts → item.text ≠ text := by
  simp only [exclude, mem_foldl_filter_ne, List.mem_filter, List.contains_eq_mem,
    decide_eq_true_iff, and_imp]

/-- The texts that count as there are those of the candidates. -/
def InStep (list : Candidates) : Prop :=
  ∀ text, text ∈ list.seen ↔ ∃ item ∈ list.items, item.text = text

namespace InStep

variable {list : Candidates}

theorem start (byName : Bool) : InStep (if byName then empty else unordered) := by
  intro text
  cases byName <;> simp [empty, unordered]

theorem add (h : list.InStep) (text : Text) (kind : CandidateKind) :
    (list.add text kind).InStep := by
  rw [Candidates.add]
  split
  · exact h
  · intro other
    simp only [List.mem_append, h other, List.mem_singleton, or_and_right, exists_or,
      exists_eq_left, eq_comm]

theorem addAll (h : list.InStep) (texts : List Text) (kind : CandidateKind) :
    (list.addAll texts kind).InStep := by
  induction texts generalizing list with
  | nil => exact h
  | cons text texts ih => exact ih (h.add text kind)

/-- No candidate that stays has the text of one that goes. -/
theorem exclude (h : list.InStep) (texts : List Text) : (list.exclude texts).InStep := by
  intro text
  rw [mem_seen_exclude, h text]
  simp only [Candidates.exclude, List.mem_filter, List.contains_eq_mem, Bool.not_eq_true',
    decide_eq_false_iff_not]
  constructor
  · rintro ⟨⟨item, member, rfl⟩, stays⟩
    exact ⟨item, ⟨member, fun excluded => stays item member excluded rfl⟩, rfl⟩
  · rintro ⟨item, ⟨member, stays⟩, rfl⟩
    exact ⟨⟨item, member, rfl⟩, fun other _ excluded same => stays (same ▸ excluded)⟩

theorem apply (h : list.InStep) (edit : Edit) : (edit.apply list).InStep := by
  cases edit with
  | add text kind => exact h.add text kind
  | addAll texts kind => exact h.addAll texts kind
  | exclude texts => exact h.exclude texts

theorem has_iff (h : list.InStep) {text : Text} :
    list.has text = true ↔ ∃ item ∈ list.items, item.text = text := by
  rw [has, List.contains_iff_mem, h text]

end InStep

/-- Whatever made a list, its texts and its candidates are in step. -/
theorem inStep_ofEdits (byName : Bool) (edits : List Edit) : (ofEdits byName edits).InStep := by
  have run (list : Candidates) (h : list.InStep) : (edits.foldl Edit.apply list).InStep := by
    induction edits generalizing list with
    | nil => exact h
    | cons edit edits ih => exact ih _ (h.apply edit)
  exact run _ (.start byName)

namespace Follows

variable {list : Candidates} {history : List Event}

theorem add (h : Follows list.items history) (inStep : list.InStep) (text : Text)
    (kind : CandidateKind) :
    Follows (list.add text kind).items (history ++ [.added text kind]) := by
  rw [Candidates.add]
  split
  · next skipped =>
    refine h.added_of_skipped ?_
    rwa [Bool.or_eq_true, List.isEmpty_iff, inStep.has_iff] at skipped
  · next new =>
    rw [Bool.or_eq_true, List.isEmpty_iff, inStep.has_iff, not_or] at new
    exact h.added_of_new new.1 fun item member same => new.2 ⟨item, member, same⟩

theorem addAll (h : Follows list.items history) (inStep : list.InStep) (texts : List Text)
    (kind : CandidateKind) :
    Follows (list.addAll texts kind).items (history ++ texts.map (.added · kind)) := by
  induction texts generalizing list history with
  | nil => simpa [Candidates.addAll] using h
  | cons text texts ih =>
    have rest := ih (h.add inStep text kind) (inStep.add text kind)
    rwa [List.append_assoc] at rest

/-- Texts are excluded one after the other. -/
theorem excludeAll {items : List Candidate} (h : Follows items history) (texts : List Text) :
    Follows (items.filter fun item => !texts.contains item.text)
      (history ++ texts.map .excluded) := by
  induction texts generalizing items history with
  | nil => simpa using h
  | cons text texts ih =>
    have rest := ih (h.excluded text)
    have both : (items.filter fun item => !(text :: texts).contains item.text) =
        (items.filter (·.text ≠ text)).filter fun item => !texts.contains item.text := by
      rw [List.filter_filter]
      refine List.filter_congr fun item _ => ?_
      by_cases same : item.text = text <;> simp [same]
    rwa [List.append_assoc, ← both] at rest

/-- One operation: the list follows the longer history. -/
theorem apply (h : Follows list.items history) (inStep : list.InStep) (edit : Edit) :
    Follows (edit.apply list).items (history ++ edit.events) := by
  cases edit with
  | add text kind => exact h.add inStep text kind
  | addAll texts kind => exact h.addAll inStep texts kind
  | exclude texts => exact h.excludeAll texts

end Follows

/-- A list follows the history of the operations that made it. -/
theorem follows_ofEdits (byName : Bool) (edits : List Edit) :
    Follows (ofEdits byName edits).items (edits.flatMap Edit.events) := by
  have run (list : Candidates) (history : List Event) (h : Follows list.items history)
      (inStep : list.InStep) :
      Follows (edits.foldl Edit.apply list).items (history ++ edits.flatMap Edit.events) := by
    induction edits generalizing list history with
    | nil => simpa using h
    | cons edit edits ih =>
      have rest := ih _ _ (h.apply inStep edit) (inStep.apply edit)
      rwa [List.append_assoc] at rest
  refine run _ [] ?_ (.start byName)
  have none : (if byName then empty else unordered).items = [] := by cases byName <;> rfl
  rw [none]
  refine ⟨fun text kind => ⟨nofun, ?_⟩, .nil⟩
  rintro ⟨_, i, inserted⟩
  cases inserted.lt_length

theorem byName_apply (list : Candidates) (edit : Edit) :
    (edit.apply list).byName = list.byName := by
  have add (list : Candidates) (text : Text) (kind : CandidateKind) :
      (list.add text kind).byName = list.byName := by
    rw [Candidates.add]
    split <;> rfl
  cases edit with
  | add text kind => exact add list text kind
  | addAll texts kind =>
    induction texts generalizing list with
    | nil => rfl
    | cons text texts ih => exact (ih (list.add text kind)).trans (add list text kind)
  | exclude texts => rfl

theorem byName_ofEdits (byName : Bool) (edits : List Edit) :
    (ofEdits byName edits).byName = byName := by
  have keeps (list : Candidates) : (edits.foldl Edit.apply list).byName = list.byName := by
    induction edits generalizing list with
    | nil => rfl
    | cons edit edits ih => rw [List.foldl_cons, ih, byName_apply]
  rw [ofEdits, keeps]
  cases byName <;> rfl

theorem presented_perm (list : Candidates) : list.presented.Perm list.items := by
  unfold presented
  split
  · exact List.mergeSort_perm ..
  · exact .refl _

theorem pairwise_before {list : Candidates} (nodup : (list.items.map (·.text)).Nodup)
    (byName : list.byName = true) : list.presented.Pairwise Candidate.Before := by
  have ordered : list.presented.Pairwise fun a b => a.precedes b = true := by
    rw [presented, if_pos byName]
    refine List.pairwise_mergeSort (fun a b c ab bc => ?_) (fun a b => ?_) list.items
    · exact Candidate.precedes_trans ab bc
    · exact Candidate.precedes_total a b
  have distinct : list.presented.Pairwise fun a b => a.text ≠ b.text :=
    List.pairwise_map.mp ((list.presented_perm.map Candidate.text).nodup_iff.mpr nodup)
  refine (ordered.and distinct).imp fun ⟨precedes, differ⟩ => ?_
  exact (Candidate.precedes_iff.mp precedes).resolve_right differ

/-- The order by name leaves no choice. -/
theorem eq_of_pairwise_before {xs ys : List Candidate} (hx : xs.Pairwise Candidate.Before)
    (hy : ys.Pairwise Candidate.Before) (same : ∀ item, item ∈ xs ↔ item ∈ ys) : xs = ys := by
  have nodup {xs : List Candidate} (h : xs.Pairwise Candidate.Before) : xs.Nodup := by
    refine h.imp fun {a b} before same => ?_
    subst same
    exact before.asymm before
  exact List.Perm.eq_of_pairwise (fun _ _ _ _ ab ba => absurd ba ab.asymm) hx hy
    ((List.perm_ext_iff_of_nodup (nodup hx) (nodup hy)).mpr same)

/-- **A candidate list can be told from its history.** Whatever additions and exclusions made a
list, it holds each text at most once and no empty text, a text is among the candidates exactly when
it is presented, and the size is the number of candidates presented. A text is presented with the
kind of its first addition since it was last excluded, and with no other. A list that is not ordered
by name presents the candidates in the order of these additions. A list that is ordered by name
presents them in a strict order of the texts, so it is the same for every history that leaves the
same candidates. -/
theorem presentation_follows_history (byName : Bool) (edits : List Edit) :
    let list := ofEdits byName edits
    let history := edits.flatMap Edit.events
    (∀ text ∈ list.texts, text ≠ []) ∧ list.texts.Nodup ∧
    (∀ text, list.has text = true ↔ text ∈ list.texts) ∧
    list.size = list.presented.length ∧
    (∀ text kind, ⟨text, kind⟩ ∈ list.presented ↔
      text ≠ [] ∧ ∃ i, Inserts history i text kind) ∧
    (byName = false → list.presented.Pairwise fun a b => ∃ i j, i < j ∧
      Inserts history i a.text a.kind ∧ Inserts history j b.text b.kind) ∧
    (byName = true → list.presented.Pairwise Candidate.Before ∧ ∀ others : List Edit,
      (∀ item, item ∈ (ofEdits true others).presented ↔ item ∈ list.presented) →
        (ofEdits true others).presented = list.presented) := by
  intro list history
  have follows : Follows list.items history := follows_ofEdits byName edits
  have perm := list.presented_perm
  have shown (text : Text) : text ∈ list.texts ↔ ∃ item ∈ list.items, item.text = text := by
    rw [texts, (perm.map _).mem_iff, List.mem_map]
  refine ⟨fun text member => ?_, ?_, fun text => ?_, perm.length_eq.symm, fun text kind => ?_,
    fun unordered => ?_, fun ordered => ?_⟩
  · obtain ⟨item, held, rfl⟩ := (shown text).mp member
    exact ((follows.mem_iff item.text item.kind).mp held).1
  · exact (perm.map _).nodup_iff.mpr follows.nodup
  · rw [(inStep_ofEdits byName edits).has_iff, shown]
  · rw [perm.mem_iff, follows.mem_iff]
  · have same : list.presented = list.items := by
      rw [presented, byName_ofEdits, unordered]
      rfl
    rw [same]
    exact follows.ordered
  · have here := pairwise_before follows.nodup ((byName_ofEdits ..).trans ordered)
    refine ⟨here, fun others same => ?_⟩
    have there := pairwise_before (follows_ofEdits true others).nodup (byName_ofEdits ..)
    exact eq_of_pairwise_before there here same

/-- Texts that differ in letter case alone, of which one is excluded and added again with another
kind, and an empty one: by name the list is the one that two additions make, and otherwise it shows
the order of the last additions. -/
theorem presentation_follows_history_of_readded :
    let edits := [Edit.addAll [utf8 "b", utf8 "B", []] .target, .exclude [utf8 "b"],
      .add (utf8 "b") .variableName, .add (utf8 "B") .command]
    (ofEdits true [.add (utf8 "b") .variableName, .add (utf8 "B") .target]).presented =
      (ofEdits true edits).presented ∧
    (ofEdits false edits).presented.Pairwise (fun a b => ∃ i j, i < j ∧
      Inserts (edits.flatMap Edit.events) i a.text a.kind ∧
      Inserts (edits.flatMap Edit.events) j b.text b.kind) ∧
    (ofEdits false edits).texts = [utf8 "B", utf8 "b"] := by
  intro edits
  obtain ⟨_, _, _, _, _, _, byName⟩ := presentation_follows_history true edits
  obtain ⟨_, _, _, _, _, inserted, _⟩ := presentation_follows_history false edits
  refine ⟨(byName rfl).2 _ fun item => ?_, inserted rfl, by decide +kernel⟩
  have left : (ofEdits true [.add (utf8 "b") .variableName, .add (utf8 "B") .target]).items =
      [⟨utf8 "b", .variableName⟩, ⟨utf8 "B", .target⟩] := by decide +kernel
  have right : (ofEdits true edits).items =
      [⟨utf8 "B", .target⟩, ⟨utf8 "b", .variableName⟩] := by decide +kernel
  rw [(presented_perm _).mem_iff, (presented_perm _).mem_iff, left, right]
  simp only [List.mem_cons, List.not_mem_nil, or_false]
  exact or_comm

end Candidates

end CMakeSense
