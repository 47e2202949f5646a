import CMakeSense.Proofs.Token.ArgumentLists
import CMakeSense.Proofs.Token.Tiling
import Mathlib.Data.List.Induction

/-! Parentheses that match. Depth is counted one token at a time, and the count stops at the last
depth that fits. Up to there it is the number of parentheses opened less those closed since the
argument list began (`Walk.Counted`), so that a list ends at the parenthesis that matches the one it
began with (`Walk.Encloses`): what stands in between is balanced, and no part from the beginning of
it closes more than it opens. Only the tokens of parentheses change the depth (`Lexeme.Counts`), and
none of them stands in a string or a comment. -/

namespace CMakeSense

namespace Lexeme

/-- What the token `l` whose first byte is `c` makes of the depth. -/
inductive Counts (s : State) (c : UInt8) (l : Lexeme) : Prop where
  | opening (byte : c = Ascii.openParen) (string : s.inString = false)
      (comment : s.inComment = false) (eq : l = openParen s)
  | closing (byte : c = Ascii.closeParen) (string : s.inString = false)
      (comment : s.inComment = false) (eq : l = closeParen s)
  | neither (opens : l.kind ≠ .openParen) (closes : l.kind ≠ .closeParen)
      (depth : l.after.depth = s.depth)

theorem depth_commentBody (s : State) (taken : Nat) (body : Text) :
    (commentBody s taken body).after.depth = s.depth := by
  unfold commentBody
  simp only
  split <;> rfl

theorem depth_comment (s : State) (t : Text) : (comment s t).after.depth = s.depth := by
  unfold comment
  split
  · exact depth_commentBody ..
  · rfl

theorem depth_word (s : State) (rest : Text) : (word s rest).after.depth = s.depth := by
  unfold word
  simp only
  split <;> rfl

theorem opener?_not_paren {t : Text} {kind : TokenKind} {n : Nat}
    (h : opener? t = some (kind, n)) : kind ≠ .openParen ∧ kind ≠ .closeParen := by
  simp only [opener?] at h
  split at h
  · cases h
    decide
  split at h
  · cases h
    decide
  split at h
  · cases h
    decide
  · cases h

theorem next_counts (s : State) (c : UInt8) (t : Text) : Counts s c (next s c t) := by
  have commented {l : Lexeme} (kind : l.kind = .comment) (depth : l.after.depth = s.depth) :
      Counts s c l := by
    refine .neither ?_ ?_ depth <;>
    · rw [kind]
      exact nofun
  unfold next
  split
  · exact commented (commentBody_kind ..) (depth_commentBody ..)
  next comment =>
  split
  · exact .neither nofun nofun rfl
  next string =>
  have comment : s.inComment = false := Bool.eq_false_iff.mpr comment
  have string : s.inString = false := Bool.eq_false_iff.mpr string
  split
  · exact commented (comment_kind ..) (depth_comment ..)
  split
  · exact .neither nofun nofun rfl
  split
  · exact .neither nofun nofun rfl
  split
  · next byte => exact .opening byte string comment rfl
  split
  · next byte => exact .closing byte string comment rfl
  split
  · exact .neither nofun nofun rfl
  split
  · next found =>
    obtain ⟨opens, closes⟩ := opener?_not_paren found
    exact .neither opens closes rfl
  · have isWord := isWord_word s (c :: t)
    refine .neither ?_ ?_ (depth_word ..) <;>
    · intro kind
      rw [kind] at isWord
      cases isWord

end Lexeme

namespace Step

/-- The token is a single byte that stands outside of strings and comments. -/
structure IsMark (step : Step) (byte : UInt8) : Prop where
  text : step.tokenText = [byte]
  string : step.before.inString = false
  comment : step.before.inComment = false

/-- What a step makes of the depth. -/
inductive Counts (step : Step) : Prop where
  | opening (kind : step.token.kind = .openParen) (mark : step.IsMark Ascii.openParen)
      (depth : 0 < step.before.depth.val →
        step.after.depth.val = min (step.before.depth.val + 1) 255)
  | closing (kind : step.token.kind = .closeParen) (mark : step.IsMark Ascii.closeParen)
      (depth : step.after.depth.val = step.before.depth.val - 1)
  | neither (opens : step.token.kind ≠ .openParen) (closes : step.token.kind ≠ .closeParen)
      (depth : step.after.depth = step.before.depth)

theorem Scanned.counts {step : Step} (h : step.Scanned) : step.Counts := by
  obtain ⟨_, c, t, rest, next⟩ := h
  have mark (length : step.token.length = 1) (string : step.before.inString = false)
      (comment : step.before.inComment = false) : step.IsMark c :=
    ⟨by rw [tokenText, rest, length]; rfl, string, comment⟩
  have counts : step.lexeme.Counts step.before c := next ▸ Lexeme.next_counts ..
  cases counts with
  | opening byte string comment eq =>
    have length := (congrArg Lexeme.length eq).trans (Lexeme.openParen_length _)
    refine .opening ((congrArg Lexeme.kind eq).trans (Lexeme.openParen_kind _))
      (byte ▸ mark length string comment) fun inside => ?_
    have after : step.after = (Lexeme.openParen step.before).after := congrArg Lexeme.after eq
    rw [after, Lexeme.openParen, if_pos ((State.insideParens_iff _).mpr inside)]
    rfl
  | closing byte string comment eq =>
    have length := (congrArg Lexeme.length eq).trans (Lexeme.closeParen_length _)
    refine .closing ((congrArg Lexeme.kind eq).trans (Lexeme.closeParen_kind _))
      (byte ▸ mark length string comment) ?_
    have after : step.after = (Lexeme.closeParen step.before).after := congrArg Lexeme.after eq
    rw [after, Lexeme.closeParen]
    split
    · simp only [State.val_depth_withDepth]
      omega
    · next outside =>
      have outside := State.insideParens_eq_false outside
      simp only [State.depth_settled]
      omega
  | neither opens closes depth => exact .neither opens closes depth

theorem Scanned.kind_of_opensList {step : Step} (h : step.Scanned) (opens : step.opensList = true) :
    step.token.kind = .openParen := by
  obtain ⟨outside, inside⟩ := h.opensList_iff.mp opens
  cases h.counts with
  | opening kind => exact kind
  | closing _ _ depth => omega
  | neither _ _ depth =>
    rw [depth] at inside
    omega

/-- A closing parenthesis directly inside an argument list closes it, and nothing else does. -/
theorem Scanned.closesList_iff_closeParen {step : Step} (h : step.Scanned) :
    step.closesList = true ↔
      step.token.kind = .closeParen ∧ step.before.depth.val = 1 := by
  rw [h.closesList_iff]
  cases h.counts with
  | opening kind _ depth =>
    rw [kind]
    refine ⟨fun ⟨inside, outside⟩ => ?_, fun ⟨other, _⟩ => nomatch other⟩
    have depth := depth inside
    omega
  | closing kind _ depth =>
    simp only [kind, true_and]
    omega
  | neither _ closes depth =>
    simp only [closes, false_and, iff_false, depth]
    omega

end Step

namespace Walk

/-- The parentheses that some tokens open, less those that they close. -/
def nesting (steps : List Step) : Int :=
  steps.countP (·.token.kind = .openParen) - steps.countP (·.token.kind = .closeParen)

@[simp] theorem nesting_nil : nesting [] = 0 := rfl

@[simp] theorem nesting_append (xs ys : List Step) :
    nesting (xs ++ ys) = nesting xs + nesting ys := by
  simp only [nesting, List.countP_append]
  omega

theorem nesting_cons (step : Step) (steps : List Step) :
    nesting (step :: steps) = nesting [step] + nesting steps :=
  nesting_append [step] steps

theorem nesting_openParen {step : Step} (kind : step.token.kind = .openParen) :
    nesting [step] = 1 := by
  simp [nesting, kind]

theorem nesting_closeParen {step : Step} (kind : step.token.kind = .closeParen) :
    nesting [step] = -1 := by
  simp [nesting, kind]

theorem nesting_neither {step : Step} (opens : step.token.kind ≠ .openParen)
    (closes : step.token.kind ≠ .closeParen) : nesting [step] = 0 := by
  simp [nesting, opens, closes]

/-- The argument list that is open behind some steps: the latest opening and what follows it, if no
closing does. -/
def OpenList (steps list : List Step) : Prop :=
  ∃ earlier opening inner, steps = earlier ++ list ∧ list = opening :: inner ∧
    opening.opensList = true ∧ ∀ step ∈ inner, step.isBound = false

/-- No argument list nests its parentheses deeper than the limit, its own included. -/
def NestsWithin (limit : Nat) (steps : List Step) : Prop :=
  ∀ front list, front <+: steps → OpenList front list → nesting list ≤ limit

/-- The depth behind some steps is the nesting of the argument list that is open there. -/
structure Counted (steps : List Step) (s : State) : Prop where
  inside : ∀ list, OpenList steps list → 0 < s.depth.val ∧ (s.depth.val : Int) = nesting list
  outside : (∀ list, ¬OpenList steps list) → s.depth.val = 0

/-- The two parentheses match: what stands in between is balanced, and no part from the beginning of
it closes more parentheses than it opens. -/
structure Encloses (opening : Step) (inner : List Step) (closing : Step) : Prop where
  opens : opening.token.kind = .openParen
  closes : closing.token.kind = .closeParen
  balanced : nesting inner = 0
  nested : ∀ part, part <+: inner → 0 ≤ nesting part

variable {limit : Nat} {steps list : List Step} {step : Step}

theorem openList_singleton (opens : step.opensList = true) : OpenList (steps ++ [step]) [step] :=
  ⟨steps, step, [], rfl, rfl, opens, by simp⟩

theorem OpenList.concat (h : OpenList steps list) (bound : step.isBound = false) :
    OpenList (steps ++ [step]) (list ++ [step]) := by
  obtain ⟨earlier, opening, inner, rfl, rfl, opens, unbound⟩ := h
  refine ⟨earlier, opening, inner ++ [step], List.append_assoc .., rfl, opens, ?_⟩
  intro other member
  rcases List.mem_append.mp member with early | last
  · exact unbound other early
  · rw [List.mem_singleton.mp last]
    exact bound

/-- The list that is open behind one more step was open before it, or is opened by it. -/
theorem OpenList.of_concat (h : OpenList (steps ++ [step]) list) :
    step.opensList = true ∧ list = [step] ∨
      step.isBound = false ∧ ∃ earlier, OpenList steps earlier ∧ list = earlier ++ [step] := by
  obtain ⟨front, opening, inner, split, rfl, opens, unbound⟩ := h
  rcases inner.eq_nil_or_concat with rfl | ⟨early, last, rfl⟩
  · obtain ⟨rfl, same⟩ := List.append_inj' split rfl
    cases same
    exact .inl ⟨opens, rfl⟩
  · rw [List.concat_eq_append] at split unbound ⊢
    rw [← List.cons_append, ← List.append_assoc] at split
    obtain ⟨rfl, same⟩ := List.append_inj' split rfl
    cases same
    refine .inr ⟨unbound step (by simp), opening :: early, ?_, rfl⟩
    refine ⟨front, opening, early, rfl, rfl, opens, fun other member => ?_⟩
    exact unbound other (List.mem_append_left _ member)

theorem NestsWithin.of_isPrefix {front : List Step} (h : NestsWithin limit steps)
    (part : front <+: steps) : NestsWithin limit front :=
  fun earlier list early => h earlier list (early.trans part)

theorem counted_nil : Counted [] .start := by
  refine ⟨fun list open_ => ?_, fun _ => rfl⟩
  obtain ⟨_, _, _, nil, rfl, _⟩ := open_
  cases List.append_eq_nil_iff.mp nil.symm |>.2

/-- One more step keeps the count. -/
theorem Counted.concat (h : Counted steps step.before) (scanned : step.Scanned)
    (shallow : NestsWithin 255 (steps ++ [step])) : Counted (steps ++ [step]) step.after := by
  have opens_iff := scanned.opensList_iff
  have closes_iff := scanned.closesList_iff
  constructor
  · intro list here
    rcases here.of_concat with ⟨opens, rfl⟩ | ⟨unbound, earlier, before, rfl⟩
    · obtain ⟨_, after⟩ := scanned.after_of_opensList opens
      have one : step.after.depth.val = 1 := congrArg (·.depth.val) after
      rw [nesting_openParen (scanned.kind_of_opensList opens), one]
      exact ⟨Nat.one_pos, rfl⟩
    · obtain ⟨deep, count⟩ := h.inside earlier before
      have within := shallow _ _ List.prefix_rfl (before.concat unbound)
      rw [Step.isBound, Bool.or_eq_false_iff] at unbound
      have stays : 0 < step.after.depth.val := by
        simp only [unbound.2, Bool.false_eq_true, false_iff] at closes_iff
        omega
      refine ⟨stays, ?_⟩
      rw [nesting_append] at within ⊢
      cases scanned.counts with
      | opening kind _ depth =>
        have depth := depth deep
        rw [nesting_openParen kind] at within ⊢
        omega
      | closing kind _ depth =>
        rw [nesting_closeParen kind]
        omega
      | neither opens closes depth =>
        rw [nesting_neither opens closes, depth]
        omega
  · intro none
    cases opens : step.opensList with
    | true => exact absurd (openList_singleton opens) (none [step])
    | false =>
      cases closes : step.closesList with
      | true => exact (closes_iff.mp closes).2
      | false =>
        have unbound : step.isBound = false := by rw [Step.isBound, opens, closes]; rfl
        have outside := h.outside fun list before => none _ (before.concat unbound)
        simp only [opens, Bool.false_eq_true, false_iff] at opens_iff
        omega

/-- The depth is counted right along a walk that does not nest too deep. -/
theorem Run.counted {t : State} (run : Run .start steps t) (shallow : NestsWithin 255 steps) :
    Counted steps t := by
  revert shallow
  apply run.concat_induction
  · intro _
    exact counted_nil
  · intro steps step earlier scanned shallow
    have before := earlier (shallow.of_isPrefix (List.prefix_append ..))
    exact before.concat scanned shallow

section Matching
variable {lines : List Text} (shallow : NestsWithin 255 (Walk.steps lines))
include shallow

theorem exists_counted {front : List Step} (part : front <+: Walk.steps lines) :
    ∃ t, Counted front t := by
  have run := run_steps lines
  obtain ⟨rest, split⟩ := part
  rw [← split] at run
  obtain ⟨t, run, _⟩ := run.of_append
  exact ⟨t, run.counted (shallow.of_isPrefix ⟨rest, split⟩)⟩

variable {before after : List Step} {step : Step}
  (split : Walk.steps lines = before ++ step :: after)
include split

theorem counted_of_split : Counted before step.before := by
  obtain ⟨run, _⟩ := run_of_steps_eq split
  refine run.counted (shallow.of_isPrefix ?_)
  rw [split]
  exact List.prefix_append ..

/-- The parenthesis that ends an argument list matches the one that began it. -/
theorem exists_encloses_of_closesList (closes : step.closesList = true) :
    ∃ earlier opening inner, before = earlier ++ opening :: inner ∧ opening.opensList = true ∧
      Encloses opening inner step := by
  obtain ⟨_, scanned, _⟩ := run_of_steps_eq split
  obtain ⟨closing, one⟩ := scanned.closesList_iff_closeParen.mp closes
  have counted := counted_of_split shallow split
  obtain ⟨list, here⟩ : ∃ list, OpenList before list := by
    refine Classical.not_forall_not.mp fun none => ?_
    have := counted.outside none
    omega
  obtain ⟨_, count⟩ := counted.inside list here
  obtain ⟨earlier, opening, inner, rfl, rfl, opens, unbound⟩ := here
  have split' : Walk.steps lines = earlier ++ opening :: (inner ++ step :: after) := by
    rw [split, List.append_assoc, List.cons_append]
  have kind := (run_of_steps_eq split').2.1.kind_of_opensList opens
  have first : nesting [opening] = 1 := nesting_openParen kind
  refine ⟨earlier, opening, inner, rfl, opens, kind, closing, ?_, fun part begins => ?_⟩
  · rw [nesting_cons] at count
    omega
  · -- The list is still open behind the part, where the depth is one more than its nesting.
    have early : earlier ++ opening :: part <+: Walk.steps lines := by
      rw [split']
      refine (List.prefix_append_right_inj earlier).mpr (List.cons_prefix_cons.mpr ⟨rfl, ?_⟩)
      exact begins.trans (List.prefix_append ..)
    obtain ⟨t, counted⟩ := exists_counted shallow early
    have here : OpenList (earlier ++ opening :: part) (opening :: part) :=
      ⟨earlier, opening, part, rfl, rfl, opens, fun x member => unbound x (begins.mem member)⟩
    obtain ⟨deep, count⟩ := counted.inside _ here
    rw [nesting_cons] at count
    omega

/-- Up to the parenthesis that matches the one it began with, an argument list stays open. -/
theorem Encloses.openList {earlier inner : List Step} {opening : Step}
    (encloses : Encloses opening inner step) (here : before = earlier ++ opening :: inner)
    (opens : opening.opensList = true) : OpenList before (opening :: inner) := by
  suffices early : ∀ part, part <+: inner →
      OpenList (earlier ++ opening :: part) (opening :: part) from
    here ▸ early inner List.prefix_rfl
  intro part
  induction part using List.reverseRecOn with
  | nil => exact fun _ => openList_singleton opens
  | append_singleton part next ih =>
    intro begins
    have nested := encloses.nested _ begins
    have open_ := ih ((List.prefix_append part [next]).trans begins)
    obtain ⟨rest, rfl⟩ := begins
    have split' : Walk.steps lines =
        (earlier ++ opening :: part) ++ next :: (rest ++ step :: after) := by
      rw [split, here]
      simp
    obtain ⟨_, scanned, _⟩ := run_of_steps_eq split'
    obtain ⟨deep, count⟩ := (counted_of_split shallow split').inside _ open_
    rw [nesting_cons, nesting_openParen encloses.opens] at count
    have opens' : next.opensList = false := by
      rw [Bool.eq_false_iff, ne_eq, scanned.opensList_iff]
      omega
    have closes' : next.closesList = false := by
      rw [Bool.eq_false_iff]
      intro closes
      obtain ⟨closing, one⟩ := scanned.closesList_iff_closeParen.mp closes
      rw [nesting_append, nesting_closeParen closing] at nested
      omega
    have unbound : next.isBound = false := by
      rw [Step.isBound, opens', closes']
      rfl
    have longer := open_.concat unbound
    rwa [List.append_assoc] at longer

/-- A step ends an argument list exactly if it is the parenthesis that matches the one the list
began with. -/
theorem closesList_iff_encloses : step.closesList = true ↔
    ∃ earlier opening inner, before = earlier ++ opening :: inner ∧ opening.opensList = true ∧
      Encloses opening inner step := by
  refine ⟨exists_encloses_of_closesList shallow split, ?_⟩
  rintro ⟨earlier, opening, inner, here, opens, encloses⟩
  obtain ⟨_, scanned, _⟩ := run_of_steps_eq split
  have open_ := encloses.openList shallow split here opens
  obtain ⟨_, count⟩ := (counted_of_split shallow split).inside _ open_
  rw [nesting_cons, nesting_openParen encloses.opens, encloses.balanced] at count
  refine scanned.closesList_iff_closeParen.mpr ⟨encloses.closes, ?_⟩
  omega

end Matching

/-- **Argument lists end at the parenthesis that matches the one they began with.** As long as no
argument list nests deeper than the last depth that fits, the depth before every token is the number
of parentheses opened less those closed since the latest list began, if that has not ended, and zero
otherwise; and a list ends exactly where its first parenthesis is matched. Parentheses in strings
and comments are no tokens of their own, and no other token changes the depth; nor does a
parenthesis outside of argument lists that begins none. -/
theorem parentheses_match (lines : List Text) (shallow : NestsWithin 255 (Walk.steps lines)) :
    (∀ before step after, Walk.steps lines = before ++ step :: after →
      (∀ list, OpenList before list → (step.before.depth.val : Int) = nesting list) ∧
      ((∀ list, ¬OpenList before list) → step.before.depth.val = 0) ∧
      (step.closesList = true ↔ ∃ earlier opening inner, before = earlier ++ opening :: inner ∧
        opening.opensList = true ∧ Encloses opening inner step)) ∧
    ∀ step ∈ Walk.steps lines,
      (step.token.kind = .openParen → step.IsMark Ascii.openParen) ∧
      (step.token.kind = .closeParen → step.IsMark Ascii.closeParen) ∧
      (step.after.depth ≠ step.before.depth →
        (step.token.kind = .openParen ∨ step.token.kind = .closeParen) ∧
          (step.opensList = true ∨ 0 < step.before.depth.val)) := by
  constructor
  · intro before step after split
    have counted := counted_of_split shallow split
    refine ⟨fun list here => (counted.inside list here).2, counted.outside, ?_⟩
    exact closesList_iff_encloses shallow split
  · intro step member
    obtain ⟨before, after, split⟩ := List.append_of_mem member
    obtain ⟨_, scanned, _⟩ := run_of_steps_eq split
    have crosses : step.after.depth ≠ step.before.depth →
        step.opensList = true ∨ 0 < step.before.depth.val := by
      intro changed
      rw [scanned.opensList_iff]
      rw [ne_eq, Fin.ext_iff] at changed
      omega
    cases scanned.counts with
    | opening kind mark => exact ⟨fun _ => mark, by simp [kind], fun h => ⟨.inl kind, crosses h⟩⟩
    | closing kind mark => exact ⟨by simp [kind], fun _ => mark, fun h => ⟨.inr kind, crosses h⟩⟩
    | neither opens closes depth =>
      exact ⟨fun kind => absurd kind opens, fun kind => absurd kind closes, fun h => absurd depth h⟩

/-- With few parentheses no list nests deep. -/
theorem nestsWithin_of_countP_le (h : steps.countP (·.token.kind = .openParen) ≤ limit) :
    NestsWithin limit steps := by
  intro front list part here
  obtain ⟨earlier, _, _, rfl, _⟩ := here
  have fewer : list.countP (·.token.kind = .openParen) ≤
      steps.countP (·.token.kind = .openParen) :=
    ((List.sublist_append_right earlier list).trans part.sublist).countP_le
  rw [nesting]
  omega

/-- Parentheses within a list, in a string, in a comment and outside of lists. -/
theorem parentheses_match_around_string_and_comment :
    let lines := [utf8 "( f((a \"(\" #(", utf8 ") b) ) g("]
    NestsWithin 255 (Walk.steps lines) ∧
    (∃ before step after, Walk.steps lines = before ++ step :: after ∧ step.closesList = true ∧
      ∃ earlier opening inner, before = earlier ++ opening :: inner ∧ opening.opensList = true ∧
        Encloses opening inner step) ∧
    ∃ step ∈ Walk.steps lines, step.after.depth ≠ step.before.depth ∧
      step.before.depth.val = 2 ∧ step.token.kind = .closeParen ∧
        step.IsMark Ascii.closeParen := by
  intro lines
  have shallow : NestsWithin 255 (Walk.steps lines) :=
    nestsWithin_of_countP_le (by decide +kernel)
  obtain ⟨along, marks⟩ := parentheses_match lines shallow
  refine ⟨shallow, ?_, ?_⟩
  · obtain ⟨step, member, closes⟩ : ∃ step ∈ Walk.steps lines, step.closesList = true := by
      decide +kernel
    obtain ⟨before, after, split⟩ := List.append_of_mem member
    exact ⟨before, step, after, split, closes, (along before step after split).2.2.mp closes⟩
  · obtain ⟨step, member, changed, deep, kind⟩ : ∃ step ∈ Walk.steps lines,
        step.after.depth ≠ step.before.depth ∧ step.before.depth.val = 2 ∧
          step.token.kind = .closeParen := by decide +kernel
    exact ⟨step, member, changed, deep, kind, (marks step member).2.1 kind⟩

end Walk

end CMakeSense
