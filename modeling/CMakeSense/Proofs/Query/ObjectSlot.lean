import CMakeSense.Proofs.Query.CandidateHistory
import CMakeSense.Proofs.Query.OpenCall
import CMakeSense.Proofs.Text.Distinct

/-! The object of a property that is read into a variable. The objects that are offered leave out
all arguments that stand before (`Candidates.InStep.has_exclude`). These are no objects, though: the
first is the variable that takes the property, and in `get_property` the second is the kind of
object. So an object is missing from the list exactly if it has the name of one of the two. -/

namespace CMakeSense

namespace Candidates

variable {list : Candidates} {text other : Text} {texts : List Text} {kind : CandidateKind}

theorem has_add : (list.add text kind).has other = true ↔
    list.has other = true ∨ other ≠ [] ∧ other = text := by
  unfold add
  split
  · next skipped =>
    rw [Bool.or_eq_true, List.isEmpty_iff] at skipped
    constructor
    · exact .inl
    · rintro (listed | ⟨nonempty, rfl⟩)
      · exact listed
      · exact skipped.resolve_left nonempty
  · next added =>
    rw [Bool.or_eq_true, not_or, List.isEmpty_iff] at added
    rw [has, has, List.contains_iff_mem, List.contains_iff_mem, List.mem_append,
      List.mem_singleton]
    refine or_congr Iff.rfl ?_
    constructor
    · rintro rfl
      exact ⟨added.1, rfl⟩
    · rintro ⟨_, rfl⟩
      rfl

theorem has_addAll : (list.addAll texts kind).has other = true ↔
    list.has other = true ∨ other ≠ [] ∧ other ∈ texts := by
  induction texts generalizing list with
  | nil => simp [addAll]
  | cons text texts ih =>
    rw [addAll, List.foldl_cons, ← addAll, ih, has_add, List.mem_cons, or_assoc, ← and_or_left]

theorem InStep.has_exclude (h : list.InStep) : (list.exclude texts).has other = true ↔
    list.has other = true ∧ other ∉ texts := by
  rw [(h.exclude texts).has_iff, h.has_iff]
  simp only [Candidates.exclude, List.mem_filter, List.contains_eq_mem, Bool.not_eq_true',
    decide_eq_false_iff_not]
  constructor
  · rintro ⟨item, ⟨member, kept⟩, rfl⟩
    exact ⟨⟨item, member, rfl⟩, kept⟩
  · rintro ⟨⟨item, member, rfl⟩, kept⟩
    exact ⟨item, ⟨member, kept⟩, rfl⟩

end Candidates

/-- Behind a kind that requires an object, `get_property` offers the objects of the kind. -/
theorem Strategy.readAnyProperty?_of_kind {tree : FileTree} {source : Source} {command : Command}
    {keyword : Text} {kind : ObjectKind} (named : ObjectKind.ofKeyword keyword = kind)
    (requires : kind.requiresObject = true) (output : Text) :
    readAnyProperty? tree source command [output, keyword] =
      (objectCandidates tree source kind command [output, keyword]).map (·.getD .empty) := by
  rw [readAnyProperty?, named]
  simp only [requires, if_true]
  exact Option.map_eq_bind.symm

/-- The places for an object behind the variable that takes its property. -/
inductive ObjectSlot where
  /-- The target in `get_target_property`. -/
  | ofTargetProperty
  /-- A target in `get_property`, behind its kind. -/
  | target
  /-- A test in `get_property`, behind its kind. -/
  | test
  /-- A cache entry in `get_property`, behind its kind. -/
  | cacheEntry

namespace ObjectSlot

def command : ObjectSlot → Command
  | .ofTargetProperty => .getTargetProperty
  | .target | .test | .cacheEntry => .getProperty

/-- The word for the kind of object, where the command takes one. -/
def keyword? : ObjectSlot → Option Word
  | .ofTargetProperty => none
  | .target => some ⟨utf8 "TARGET", by decide +kernel⟩
  | .test => some ⟨utf8 "TEST", by decide +kernel⟩
  | .cacheEntry => some ⟨utf8 "CACHE", by decide +kernel⟩

/-- The arguments before the object. -/
def arguments (slot : ObjectSlot) (output : Word) : List Word :=
  output :: slot.keyword?.toList

/-- The call up to the space before the object. -/
def line (slot : ObjectSlot) (output : Word) : Text :=
  Script.openCall slot.command.name ((slot.arguments output).map .word)

/-- The objects that a script has for the place. -/
def objects : ObjectSlot → List Text → List Text
  | .ofTargetProperty | .target => Script.targets
  | .test => Script.tests
  | .cacheEntry => Script.cacheVariables

/-- The objects for the place in other files. -/
def others? : ObjectSlot → Symbols → Option (List Text)
  | .ofTargetProperty | .target | .test => fun _ => some []
  | .cacheEntry => (·.names? (·.cacheVariables))

theorem ne_nil_of_mem_objects {slot : ObjectSlot} {lines : List Text} {name : Text}
    (member : name ∈ slot.objects lines) : name ≠ [] := by
  cases slot with
  | ofTargetProperty | target | test =>
    have kept := (List.mem_filter.mp (Text.mem_distinct.mp member)).2
    exact of_decide_eq_true kept
  | cacheEntry =>
    have kept := (List.mem_filter.mp (Text.mem_distinct.mp member)).2
    exact of_decide_eq_true (Bool.and_eq_true_iff.mp kept).1

/-- The candidates for an object, without those among the arguments before. -/
def candidates? (slot : ObjectSlot) (source : Source) (prior : List Text) : Option Candidates :=
  match slot with
  | .ofTargetProperty | .target => some (Strategy.targetCandidates source prior)
  | .test => some (Strategy.testCandidates source prior)
  | .cacheEntry => Strategy.cacheCandidates? source prior

/-- At its place an object is completed. -/
theorem run_eq_candidates? (slot : ObjectSlot) (tree : FileTree) (source : Source) (output : Word) :
    ((Strategy.afterSpace? slot.command).bind fun strategy =>
      strategy.run tree source slot.command ((slot.arguments output).map Subtype.val)) =
      slot.candidates? source ((slot.arguments output).map Subtype.val) := by
  have target : ObjectKind.ofKeyword (utf8 "TARGET") = .target := by decide +kernel
  have test : ObjectKind.ofKeyword (utf8 "TEST") = .test := by decide +kernel
  have cacheEntry : ObjectKind.ofKeyword (utf8 "CACHE") = .cacheEntry := by decide +kernel
  cases slot with
  | ofTargetProperty => rfl
  | target => exact Strategy.readAnyProperty?_of_kind target rfl output.val
  | test => exact Strategy.readAnyProperty?_of_kind test rfl output.val
  | cacheEntry =>
    refine (Strategy.readAnyProperty?_of_kind cacheEntry rfl output.val).trans ?_
    exact (Option.map_map ..).trans (Option.map_id' ..)

theorem notMem_arguments_iff {slot : ObjectSlot} {output : Word} {name : Text} :
    name ∉ (slot.arguments output).map Subtype.val ↔
      name ≠ output.val ∧ ∀ keyword ∈ slot.keyword?, name ≠ keyword.val := by
  rw [arguments, List.map_cons, List.mem_cons, not_or]
  refine and_congr Iff.rfl ?_
  cases slot.keyword? <;> simp

theorem plainWord_name (slot : ObjectSlot) : Lexeme.PlainWord slot.command.name := by
  cases slot <;> decide +kernel

theorem ofName?_name (slot : ObjectSlot) :
    Command.ofName? slot.command.name = some slot.command := by
  cases slot <;> decide +kernel

/-- What is offered for an object: what the buffer or another file defines, without the arguments
before. -/
theorem exists_candidates {slot : ObjectSlot} {source : Source} {others : List Text}
    (known : slot.others? source.symbols = some others) (prior : List Text) :
    ∃ list, slot.candidates? source prior = some list ∧
      ∀ name, list.has name = true ↔
        (name ∈ slot.objects source.lines ∨ name ≠ [] ∧ name ∈ others) ∧ name ∉ prior := by
  -- In all four lists the names of the buffer come first, and what stands before goes last.
  obtain ⟨base, kind, empty, inStep, offered⟩ : ∃ (base : Candidates) (kind : CandidateKind),
      (∀ name, base.has name = false) ∧ base.InStep ∧
      slot.candidates? source prior = some
        (((base.addAll (slot.objects source.lines) kind).addAll others kind).exclude prior) := by
    cases slot with
    | ofTargetProperty | target | test =>
      cases known
      exact ⟨.unordered, .target, fun _ => rfl, .start false, rfl⟩
    | cacheEntry =>
      refine ⟨.empty, .variableName, fun _ => rfl, .start true, ?_⟩
      have known : source.symbols.names? (·.cacheVariables) = some others := known
      rw [candidates?, Strategy.cacheCandidates?, known]
      rfl
  refine ⟨_, offered, fun name => ?_⟩
  rw [((inStep.addAll _ kind).addAll others kind).has_exclude, Candidates.has_addAll,
    Candidates.has_addAll, empty]
  refine and_congr (or_congr ⟨?_, fun member => .inr ⟨ne_nil_of_mem_objects member, member⟩⟩
    Iff.rfl) Iff.rfl
  rintro (listed | ⟨_, member⟩)
  · cases listed
  · exact member

end ObjectSlot

namespace Completion

/-- **All objects are offered exactly if none has the name of an argument before.** Behind the
variable that takes a property, and behind the kind of object where the command takes one, the last
space raises a request that is answered by the objects of the buffer, for cache entries also by
those of other files, without the ones that have the name of the variable or of the kind. -/
theorem object_slot_offers_all_iff (slot : ObjectSlot) (output : Word) {above : List Text}
    (closed : (Walk.final (Walk.steps above)).Closed) {source : Source}
    (buffer : source.lines = above ++ [slot.line output]) {others : List Text}
    (known : slot.others? source.symbols = some others) (tree : FileTree) :
    Cursor.request? source.lines ⟨above.length, (slot.line output).length⟩ =
      some (Script.lastSpace above (slot.line output)) ∧
    ∃ list, candidates? tree source (Script.lastSpace above (slot.line output)) = some list ∧
      (∀ name, list.has name = true ↔
        (name ∈ slot.objects source.lines ∨ name ≠ [] ∧ name ∈ others) ∧
          name ≠ output.val ∧ ∀ keyword ∈ slot.keyword?, name ≠ keyword.val) ∧
      ((∀ name ∈ slot.objects source.lines, list.has name = true) ↔
        output.val ∉ slot.objects source.lines ∧
          ∀ keyword ∈ slot.keyword?, keyword.val ∉ slot.objects source.lines) := by
  have ends : Script.EndsInCall source.lines above slot.command.name
      ((slot.arguments output).map .word) :=
    ⟨buffer, closed, slot.plainWord_name, List.cons_ne_nil _ _⟩
  have values : ((slot.arguments output).map .word).map WrittenArgument.value =
      (slot.arguments output).map Subtype.val := List.map_map ..
  obtain ⟨list, offered, names⟩ :=
    ObjectSlot.exists_candidates known ((slot.arguments output).map Subtype.val)
  simp only [ObjectSlot.notMem_arguments_iff] at names
  refine ⟨ends.request?_eq, list, ?_, names, ?_⟩
  · rw [ObjectSlot.line, ends.candidates?_eq tree rfl, slot.ofName?_name, Option.bind_some, values,
      slot.run_eq_candidates?, offered]
  · constructor
    · intro all
      refine ⟨fun member => ?_, fun keyword taken member => ?_⟩
      · exact ((names _).mp (all _ member)).2.1 rfl
      · exact ((names _).mp (all _ member)).2.2 keyword taken rfl
    · rintro ⟨output_apart, keyword_apart⟩ name member
      refine (names name).mpr ⟨.inl member, ?_, fun keyword taken => ?_⟩
      · rintro rfl
        exact output_apart member
      · rintro rfl
        exact keyword_apart keyword taken member

/-- A cache entry of the buffer and one of another file, behind a variable that is neither. -/
theorem object_slot_offers_all_cache_entries :
    let above := [utf8 "option(A x ON)"]
    let source : Source := ⟨[], above ++ [utf8 "get_property(v CACHE "],
      .known ⟨[], [], [utf8 "B"], [], [], fun _ => none⟩, ⟨false, []⟩⟩
    (Walk.final (Walk.steps above)).Closed ∧ Script.cacheVariables source.lines = [utf8 "A"] ∧
    ∃ list, candidates? (.empty []) source ⟨⟨1, 20⟩, some .whiteSpace⟩ = some list ∧
      list.has (utf8 "A") = true ∧ list.has (utf8 "B") = true := by
  intro above source
  have closed : (Walk.final (Walk.steps above)).Closed := by decide +kernel
  have objects : ObjectSlot.cacheEntry.objects source.lines = [utf8 "A"] := by decide +kernel
  let v : Word := ⟨utf8 "v", by decide +kernel⟩
  have line : ObjectSlot.cacheEntry.line v = utf8 "get_property(v CACHE " := by decide +kernel
  have space : Script.lastSpace above (utf8 "get_property(v CACHE ") =
      ⟨⟨1, 20⟩, some .whiteSpace⟩ := by decide +kernel
  have buffer : source.lines = above ++ [ObjectSlot.cacheEntry.line v] := by rw [line]
  obtain ⟨_, list, offered, names, all⟩ :=
    object_slot_offers_all_iff .cacheEntry v closed buffer rfl (.empty [])
  rw [line, space] at offered
  have apart : v.val ∉ ObjectSlot.cacheEntry.objects source.lines ∧
      ∀ keyword ∈ ObjectSlot.cacheEntry.keyword?,
        keyword.val ∉ ObjectSlot.cacheEntry.objects source.lines := by
    rw [objects]
    refine ⟨by decide +kernel, ?_⟩
    rintro _ ⟨⟩
    decide +kernel
  have listed : utf8 "A" ∈ ObjectSlot.cacheEntry.objects source.lines := by
    rw [objects]
    exact List.mem_cons_self
  refine ⟨closed, objects, list, offered, all.mpr apart _ listed, (names _).mpr ⟨.inr ?_, ?_, ?_⟩⟩
  · exact ⟨by decide +kernel, List.mem_cons_self⟩
  · decide +kernel
  · rintro _ ⟨⟩
    decide +kernel

/-- A target that has the name of the variable is not offered. -/
theorem object_slot_omits_target :
    let lines := [utf8 "add_library(foo x.c)", utf8 "get_target_property(foo "]
    Script.targets lines = [utf8 "foo"] ∧
    candidates? (.empty []) ⟨[], lines, .absent, ⟨false, []⟩⟩ ⟨⟨1, 23⟩, some .whiteSpace⟩ =
      some ⟨false, [], []⟩ := by
  decide +kernel

end Completion

end CMakeSense
