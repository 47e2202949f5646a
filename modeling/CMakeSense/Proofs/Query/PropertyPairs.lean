import CMakeSense.Proofs.Query.OpenCall
import Mathlib.Data.List.Nodup

/-! Names and values of properties in turn. A command that writes properties takes objects up to the
word `PROPERTIES`, and then pairs. Which of the two halves of a pair comes next is told by how many
arguments stand behind that word (`Strategy.writeProperties?_append`), so it comes out right only if
every name and every value is read as one argument, whatever a quoted value holds and whichever of
them is the word `PROPERTIES` again. -/

namespace CMakeSense

/-- Texts that are new to a list are all added to its end. -/
theorem Candidates.addAll_eq_append {list : Candidates} {texts : List Text} {kind : CandidateKind}
    (distinct : texts.Nodup) (new : ∀ text ∈ texts, text ≠ [] ∧ list.has text = false) :
    list.addAll texts kind =
      ⟨list.byName, list.items ++ texts.map (⟨·, kind⟩), list.seen ++ texts⟩ := by
  induction texts generalizing list with
  | nil => simp [addAll]
  | cons text texts ih =>
    obtain ⟨nonempty, first⟩ := new text List.mem_cons_self
    obtain ⟨notMem, distinct⟩ := List.nodup_cons.mp distinct
    have added : list.add text kind =
        ⟨list.byName, list.items ++ [⟨text, kind⟩], list.seen ++ [text]⟩ := by
      simp [add, first, nonempty]
    have later : ∀ other ∈ texts, other ≠ [] ∧ (list.add text kind).has other = false := by
      intro other member
      obtain ⟨nonempty, unlisted⟩ := new other (List.mem_cons_of_mem text member)
      have differs : text ≠ other := fun same => notMem (same ▸ member)
      refine ⟨nonempty, ?_⟩
      rw [has, List.contains_eq_mem, decide_eq_false_iff_not] at unlisted ⊢
      rw [added, List.mem_append, List.mem_singleton, not_or]
      exact ⟨unlisted, Ne.symm differs⟩
    have others := ih distinct later
    rw [added] at others
    rw [addAll, List.foldl_cons, ← addAll, added, others]
    simp

/-- The catalog of a kind lists every property once. -/
theorem ObjectKind.nodup_properties (kind : ObjectKind) :
    kind.properties.Nodup ∧ [] ∉ kind.properties := by
  cases kind <;> decide +kernel

namespace Strategy

theorem propertyCandidates_eq (kind : ObjectKind) :
    propertyCandidates kind =
      ⟨true, kind.properties.map (⟨·, .property⟩), kind.properties⟩ := by
  obtain ⟨distinct, nonempty⟩ := kind.nodup_properties
  apply Candidates.addAll_eq_append distinct
  intro text member
  exact ⟨fun empty => nonempty (empty ▸ member), rfl⟩

/-- Behind the first word `PROPERTIES` a name comes next after an even number of arguments, and a
value after an odd one. -/
theorem writeProperties?_append {tree : FileTree} {source : Source} {command : Command}
    {objects : List Text} (others : utf8 "PROPERTIES" ∉ objects) (pairs : List Text) :
    writeProperties? tree source command (objects ++ utf8 "PROPERTIES" :: pairs) =
      if pairs.length % 2 = 0 then some (propertyCandidates command.objectKind) else none := by
  have first : (objects ++ utf8 "PROPERTIES" :: pairs).findIdx? (· = utf8 "PROPERTIES") =
      some objects.length := by
    have none : objects.findIdx? (· = utf8 "PROPERTIES") = none := by
      rw [List.findIdx?_eq_none_iff]
      intro object member
      exact decide_eq_false fun same => others (same ▸ member)
    rw [List.findIdx?_append, none, List.findIdx?_cons, if_pos (decide_eq_true rfl)]
    simp
  have count : (objects ++ utf8 "PROPERTIES" :: pairs).length - objects.length =
      pairs.length + 1 := by
    rw [List.length_append, List.length_cons]
    omega
  have parity : (pairs.length + 1) % 2 = 1 ↔ pairs.length % 2 = 0 := by omega
  rw [writeProperties?, first]
  simp only [count, parity]

end Strategy

namespace Completion

open Script

/-- The arguments of a command that writes properties: objects, the word `PROPERTIES`, and the pairs
of a name and a value. -/
def propertyArguments (objects : List Word) (pairs : List (Word × WrittenArgument)) :
    List WrittenArgument :=
  objects.map .word ++ .word ⟨utf8 "PROPERTIES", by decide +kernel⟩ ::
    pairs.flatMap fun pair => [.word pair.1, pair.2]

theorem map_value_propertyArguments (objects : List Word)
    (pairs : List (Word × WrittenArgument)) :
    (propertyArguments objects pairs).map WrittenArgument.value =
      objects.map Subtype.val ++ utf8 "PROPERTIES" ::
        pairs.flatMap fun pair => [pair.1.val, pair.2.value] := by
  rw [propertyArguments, List.map_append, List.map_map, List.map_cons, List.map_flatMap]
  rfl

theorem length_pairs (pairs : List (Word × WrittenArgument)) :
    (pairs.flatMap fun pair => [pair.1.val, pair.2.value]).length = 2 * pairs.length := by
  rw [List.length_flatMap]
  simp [Nat.mul_comm]

/-- The commands that write properties of objects that they list, with the kinds of these. -/
def propertyWriters : List (Command × ObjectKind) :=
  [(.setTargetProperties, .target), (.setSourceFilesProperties, .source),
    (.setTestsProperties, .test)]

/-- At the end of the call of such a command, what comes next depends on what stands behind the word
`PROPERTIES`. -/
theorem candidates?_of_propertyWriter {command : Command} {kind : ObjectKind}
    (writer : (command, kind) ∈ propertyWriters) {above : List Text}
    (closed : (Walk.final (Walk.steps above)).Closed) {arguments : List WrittenArgument}
    {objects pairs : List Text} (others : utf8 "PROPERTIES" ∉ objects)
    (values : arguments.map WrittenArgument.value = objects ++ utf8 "PROPERTIES" :: pairs)
    (tree : FileTree) (source : Source) :
    let line := openCall command.name arguments
    Cursor.request? (above ++ [line]) ⟨above.length, line.length⟩ = some (lastSpace above line) ∧
    candidates? tree { source with lines := above ++ [line] } (lastSpace above line) =
      if pairs.length % 2 = 0 then some (Strategy.propertyCandidates kind) else none := by
  intro line
  have known : ∀ entry ∈ propertyWriters, Lexeme.PlainWord entry.1.name ∧
      Command.ofName? entry.1.name = some entry.1 ∧
      Strategy.afterSpace? entry.1 = some .writeProperties ∧ entry.1.objectKind = entry.2 := by
    decide +kernel
  obtain ⟨named, command?, strategy?, kind?⟩ := known _ writer
  have nonempty : arguments ≠ [] := by
    rintro rfl
    exact List.append_ne_nil_of_right_ne_nil objects (List.cons_ne_nil _ pairs) values.symm
  have ends : EndsInCall (above ++ [line]) above command.name arguments :=
    ⟨rfl, closed, named, nonempty⟩
  refine ⟨ends.request?_eq, ?_⟩
  rw [ends.candidates?_eq tree rfl, command?, Option.bind_some, strategy?, Option.bind_some,
    Strategy.run, values, Strategy.writeProperties?_append others, kind?]

/-- **Names and values of properties alternate.** In the call of a command that writes properties,
on a line of its own or below lines that leave nothing open, the space behind any number of pairs
raises a request that is answered by the properties of the kind of object, each once and nothing
else. Behind one more name there is no answer, since its value comes next. No object may be the
word `PROPERTIES`; names and values may be. -/
theorem property_names_alternate {command : Command} {kind : ObjectKind}
    (writer : (command, kind) ∈ propertyWriters) {above : List Text}
    (closed : (Walk.final (Walk.steps above)).Closed) {objects : List Word}
    (others : ∀ object ∈ objects, object.val ≠ utf8 "PROPERTIES")
    (pairs : List (Word × WrittenArgument)) (property : Word) (tree : FileTree) (source : Source) :
    let call := openCall command.name (propertyArguments objects pairs)
    let extended := call ++ property.val ++ [Ascii.space]
    Cursor.request? (above ++ [call]) ⟨above.length, call.length⟩ = some (lastSpace above call) ∧
    candidates? tree { source with lines := above ++ [call] } (lastSpace above call) =
      some ⟨true, kind.properties.map (⟨·, .property⟩), kind.properties⟩ ∧
    Cursor.request? (above ++ [extended]) ⟨above.length, extended.length⟩ =
      some (lastSpace above extended) ∧
    candidates? tree { source with lines := above ++ [extended] } (lastSpace above extended) =
      none := by
  intro call extended
  have notMem : utf8 "PROPERTIES" ∉ objects.map Subtype.val := by
    intro member
    obtain ⟨object, listed, same⟩ := List.mem_map.mp member
    exact others object listed same
  have longer : openCall command.name (propertyArguments objects pairs ++ [.word property]) =
      extended := openCall_concat ..
  have values : (propertyArguments objects pairs ++ [WrittenArgument.word property]).map
      WrittenArgument.value = objects.map Subtype.val ++ utf8 "PROPERTIES" ::
        ((pairs.flatMap fun pair => [pair.1.val, pair.2.value]) ++ [property.val]) := by
    rw [List.map_append, map_value_propertyArguments, List.append_assoc]
    rfl
  let rest := pairs.flatMap fun pair => [pair.1.val, pair.2.value]
  have even : rest.length % 2 = 0 := by
    rw [length_pairs]
    exact Nat.mul_mod_right 2 pairs.length
  have odd : ¬ (rest ++ [property.val]).length % 2 = 0 := by
    rw [List.length_append, List.length_singleton]
    omega
  obtain ⟨raised, name⟩ := candidates?_of_propertyWriter writer closed notMem
    (map_value_propertyArguments objects pairs) tree source
  obtain ⟨raised', value⟩ := candidates?_of_propertyWriter writer closed notMem values tree source
  rw [longer] at raised' value
  rw [if_pos even, Strategy.propertyCandidates_eq] at name
  rw [if_neg odd] at value
  exact ⟨raised, name, raised', value⟩

/-- Quoted values that hold blanks, parentheses, a hash sign and nothing at all, and a name and a
value that are the word `PROPERTIES`. -/
theorem property_names_alternate_behind_quoted_values :
    let above := [utf8 "add_library(a x.c)"]
    let call := utf8 "set_target_properties(a PROPERTIES K \"x) # (\" PROPERTIES PROPERTIES L \"\" "
    (Walk.final (Walk.steps above)).Closed ∧
    candidates? (.empty []) ⟨[], above ++ [call], .absent, ⟨false, []⟩⟩
      ⟨⟨1, 72⟩, some .whiteSpace⟩ =
        some ⟨true, ObjectKind.target.properties.map (⟨·, .property⟩),
          ObjectKind.target.properties⟩ ∧
    candidates? (.empty []) ⟨[], above ++ [call ++ utf8 "M "], .absent, ⟨false, []⟩⟩
      ⟨⟨1, 74⟩, some .whiteSpace⟩ = none := by
  intro above call
  have closed : (Walk.final (Walk.steps above)).Closed := by decide +kernel
  let a : Word := ⟨utf8 "a", by decide +kernel⟩
  let k : Word := ⟨utf8 "K", by decide +kernel⟩
  let l : Word := ⟨utf8 "L", by decide +kernel⟩
  let m : Word := ⟨utf8 "M", by decide +kernel⟩
  let again : Word := ⟨utf8 "PROPERTIES", by decide +kernel⟩
  let pairs : List (Word × WrittenArgument) :=
    [(k, .quoted (utf8 "x) # (") (by decide +kernel)), (again, .word again), (l, .quoted [] nofun)]
  have writer : (Command.setTargetProperties, ObjectKind.target) ∈ propertyWriters := by decide
  have others : ∀ object ∈ [a], object.val ≠ utf8 "PROPERTIES" := by decide +kernel
  have text : openCall Command.setTargetProperties.name (propertyArguments [a] pairs) = call := by
    decide +kernel
  have longer : call ++ m.val ++ [Ascii.space] = call ++ utf8 "M " := by decide +kernel
  have space : lastSpace above call = ⟨⟨1, 72⟩, some .whiteSpace⟩ := by decide +kernel
  have space' : lastSpace above (call ++ utf8 "M ") = ⟨⟨1, 74⟩, some .whiteSpace⟩ := by
    decide +kernel
  obtain ⟨_, name, _, value⟩ := property_names_alternate writer closed others pairs m (.empty [])
    ⟨[], [], .absent, ⟨false, []⟩⟩
  rw [text, space] at name
  rw [text, longer, space'] at value
  exact ⟨closed, name, value⟩

end Completion

end CMakeSense
