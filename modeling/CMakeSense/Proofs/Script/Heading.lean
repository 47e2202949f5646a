import CMakeSense.Proofs.Script.Reading
import CMakeSense.Proofs.Token.ArgumentLists

/-! The tokens that a statement begins with. There is one statement for each parenthesis that opens
an argument list (`Script.length_statements`), and its head is the last word before that parenthesis
(`Script.Heading`), which stands outside of argument lists. -/

namespace CMakeSense

open Statement

/-- The word that is held while reading between statements is the last one. -/
theorem Walk.Run.exists_word_of_between {xs : List Step} {t : State} (run : Run .start xs t)
    {head : Head} (held : xs.foldl Reading.after (.between none) = .between (some head)) :
    ∃ word, xs.reverse.find? (·.token.kind.isWord) = some word ∧ head = .ofStep word ∧
      word.before.depth.val = 0 := by
  revert held head
  suffices both : (xs.foldl Reading.after (.between none)).Fits t ∧
      ∀ head, xs.foldl Reading.after (.between none) = .between (some head) →
        ∃ word, xs.reverse.find? (·.token.kind.isWord) = some word ∧ head = .ofStep word ∧
          word.before.depth.val = 0 from fun {head} => both.2 head
  apply run.concat_induction
  · exact ⟨Reading.fits_start, nofun⟩
  · rintro xs step ⟨fits, earlier⟩ scanned
    obtain ⟨next, hnext, turn, fits'⟩ := fits.turn scanned
    rw [List.foldl_append, List.foldl_cons, List.foldl_nil, hnext]
    refine ⟨fits', fun head held => ?_⟩
    subst held
    rw [List.reverse_append, List.reverse_singleton, List.singleton_append]
    generalize hreading : xs.foldl Reading.after (.between none) = reading at turn fits earlier
    cases turn with
    | names word start stop =>
      exact ⟨step, List.find?_cons_of_pos word, rfl, fits.1⟩
    | passes word start stop kept =>
      obtain ⟨last, found, rest⟩ := earlier head (congrArg Reading.between (kept head rfl))
      exact ⟨last, (List.find?_cons_of_neg (by simp [word])).trans found, rest⟩

namespace Script

variable {lines : List Text} {k : Nat} {name opening : Step}

/-- Every argument list that is opened belongs to a statement. -/
theorem length_statements (lines : List Text) :
    (statements lines).length = (Walk.steps lines).countP Step.opensList := by
  have run := Walk.run_steps lines
  have counted := countP_opensList Reading.fits_start run
  rw [← length_completed Reading.fits_start run] at counted
  have parts := readFrom_append (.between none) (Walk.steps lines) []
  rw [List.append_nil] at parts
  rw [statements, parts, List.length_append]
  cases left : (Walk.steps lines).foldl Reading.after (.between none) with
  | between head? => simpa [left, readFrom, Reading.isWithin] using counted.symm
  | within head args => simpa [left, readFrom, Reading.isWithin] using counted.symm

/-- The statement whose argument list is being read after some steps. -/
theorem getElem?_statements_of_split {front rest : List Step}
    (split : Walk.steps lines = front ++ rest)
    (within : (front.foldl Reading.after (.between none)).isWithin = true)
    (counted : front.countP Step.opensList = k + 1) :
    (statements lines)[k]? = (readFrom (front.foldl Reading.after (.between none)) rest).head? := by
  have run := Walk.run_steps lines
  rw [split] at run
  obtain ⟨_, run, _⟩ := run.of_append
  have bounds := countP_opensList Reading.fits_start run
  rw [← length_completed Reading.fits_start run, within, counted] at bounds
  have length : (completed (.between none) front).length = k :=
    (Nat.add_right_cancel (m := 1) bounds).symm
  rw [statements, split, readFrom_append, List.getElem?_append_right (Nat.le_of_eq length), length,
    Nat.sub_self, List.head?_eq_getElem?]

/-- The argument list of statement `k` is opened by `opening`, and the last word before it is
`name`. -/
def Heading (lines : List Text) (k : Nat) (name opening : Step) : Prop :=
  ∃ front rest, Walk.steps lines = front ++ opening :: rest ∧ opening.opensList = true ∧
    front.countP Step.opensList = k ∧ front.reverse.find? (·.token.kind.isWord) = some name

/-- What has been read before a parenthesis that opens an argument list. -/
theorem exists_word_of_opensList {front rest : List Step}
    (split : Walk.steps lines = front ++ opening :: rest) (opens : opening.opensList = true) :
    ∃ word, front.reverse.find? (·.token.kind.isWord) = some word ∧
      word.before.depth.val = 0 ∧
      front.foldl Reading.after (.between none) = .between (some (.ofStep word)) ∧
      opening.token.kind = .openParen := by
  obtain ⟨run, scanned, _⟩ := Walk.run_of_steps_eq split
  obtain ⟨next, _, turn, _⟩ := (Reading.fits_start.run run).turn scanned
  generalize hread : front.foldl Reading.after (.between none) = reading at turn
  cases turn with
  | opens kind start stop =>
    obtain ⟨word, found, rfl, outside⟩ := run.exists_word_of_between hread
    exact ⟨word, found, outside, rfl, kind⟩
  | closes start => simp [start] at opens
  | names word start => simp [start] at opens
  | passes word start => simp [start] at opens
  | stays start => simp [start] at opens

/-- The statement whose argument list a parenthesis opens. -/
theorem getElem?_statements_of_opensList {front rest : List Step}
    (split : Walk.steps lines = front ++ opening :: rest) (opens : opening.opensList = true) :
    ∃ word, front.reverse.find? (·.token.kind.isWord) = some word ∧
      (statements lines)[front.countP Step.opensList]? =
        (readFrom (.within (.ofStep word) (.start opening.line)) rest).head? := by
  obtain ⟨word, found, _, read, kind⟩ := exists_word_of_opensList split opens
  have within : (front ++ [opening]).foldl Reading.after (.between none) =
      .within (.ofStep word) (.start opening.line) := by
    rw [List.foldl_append, read]
    exact Reading.after_of_opens kind opens
  have counted : (front ++ [opening]).countP Step.opensList = front.countP Step.opensList + 1 := by
    rw [List.countP_append, List.countP_singleton, if_pos opens]
  rw [List.append_cons] at split
  refine ⟨word, found, ?_⟩
  rw [getElem?_statements_of_split split (by rw [within]; rfl) counted, within]

/-- Every statement has its heading. -/
theorem exists_heading {statement : Statement} (h : (statements lines)[k]? = some statement) :
    ∃ name opening, Heading lines k name opening := by
  obtain ⟨bound, _⟩ := List.getElem?_eq_some_iff.mp h
  rw [length_statements, List.countP_eq_length_filter] at bound
  obtain ⟨front, rest, split, counted, opens⟩ :=
    Walk.exists_split_of_getElem?_filter (List.getElem?_eq_getElem bound)
  obtain ⟨word, found, _⟩ := exists_word_of_opensList split opens
  exact ⟨word, _, front, rest, split, opens, counted, found⟩

namespace Heading

/-- Reading at the parenthesis of a statement. -/
theorem exists_split (h : Heading lines k name opening) :
    ∃ front rest, Walk.steps lines = front ++ opening :: rest ∧ opening.opensList = true ∧
      front.countP Step.opensList = k ∧ name ∈ front ∧ name.token.kind.isWord = true ∧
      name.before.depth.val = 0 ∧
      (front ++ [opening]).foldl Reading.after (.between none) =
        .within (.ofStep name) (.start opening.line) := by
  obtain ⟨front, rest, split, opens, counted, found⟩ := h
  obtain ⟨word, found', outside, read, kind⟩ := exists_word_of_opensList split opens
  obtain rfl := Option.some.inj (found'.symm.trans found)
  have isWord : word.token.kind.isWord = true := by simpa using List.find?_some found
  refine ⟨front, rest, split, opens, counted, ?_, isWord, outside, ?_⟩
  · exact List.mem_reverse.mp (List.mem_of_find?_eq_some found)
  · rw [List.foldl_append, read]
    exact Reading.after_of_opens kind opens

theorem mem_steps (h : Heading lines k name opening) : name ∈ Walk.steps lines := by
  obtain ⟨front, rest, split, _, _, member, _⟩ := h.exists_split
  rw [split]
  exact List.mem_append_left _ member

theorem isWord (h : Heading lines k name opening) : name.token.kind.isWord = true := by
  obtain ⟨_, _, _, _, _, _, isWord, _⟩ := h.exists_split
  exact isWord

theorem outside (h : Heading lines k name opening) : name.before.depth.val = 0 := by
  obtain ⟨_, _, _, _, _, _, _, outside, _⟩ := h.exists_split
  exact outside

/-- Nothing but blanks and comments stands between the name and the parenthesis. -/
theorem exists_gap (h : Heading lines k name opening) :
    ∃ before gap rest, Walk.steps lines = before ++ name :: (gap ++ opening :: rest) ∧
      (∀ step ∈ gap, step.token.kind = .whiteSpace ∨ step.token.kind = .comment) ∧
      opening.token.kind = .openParen := by
  obtain ⟨front, rest, split, opens, _, found⟩ := h
  obtain ⟨_, _, _, _, kind⟩ := exists_word_of_opensList split opens
  obtain ⟨before, word, gap, rfl, isWord, blank, _⟩ := Walk.lastCommand_of_opensList split opens
  have wordless : gap.reverse.find? (·.token.kind.isWord) = none := by
    refine List.find?_eq_none.mpr fun step member => ?_
    rcases blank step (List.mem_reverse.mp member) with kind | kind <;>
    · rw [kind]
      decide
  rw [List.reverse_append, List.reverse_cons, List.append_assoc, List.find?_append, wordless,
    Option.none_or, List.singleton_append, List.find?_cons, isWord] at found
  obtain rfl := Option.some.inj found
  refine ⟨before, gap, rest, ?_, blank, kind⟩
  rw [split, List.append_assoc, List.cons_append]

theorem scanned (h : Heading lines k name opening) : name.Scanned := by
  obtain ⟨before, gap, rest, split, _⟩ := h.exists_gap
  exact (Walk.run_of_steps_eq split).2.1

/-- The statement that a heading begins is named by it. -/
theorem exists_statement (h : Heading lines k name opening) :
    ∃ arguments closed,
      (statements lines)[k]? = some ((Head.ofStep name).statement arguments closed) := by
  obtain ⟨front, rest, split, opens, rfl, found⟩ := h
  obtain ⟨word, found', read⟩ := getElem?_statements_of_opensList split opens
  obtain rfl := Option.some.inj (found'.symm.trans found)
  obtain ⟨arguments, closed, others, _, within⟩ :=
    readFrom_within (.ofStep word) (.start opening.line) rest
  refine ⟨arguments, closed, ?_⟩
  rw [read, within]
  rfl

end Heading

end Script

end CMakeSense
