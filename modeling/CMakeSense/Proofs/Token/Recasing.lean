import CMakeSense.Proofs.Text.LetterCase
import CMakeSense.Proofs.Token.Blank
import CMakeSense.Proofs.Token.Plain

/-! Scanning names in other letter case. Where a line is changed in the case of letters in words
only, its tokens stay where they are (`Scan.forall₂_movesFrom_of_keeps`). A token that is no word
depends on its own bytes, which are kept (`Lexeme.next_of_not_readsWord`). A word ends before a
blank, a delimiter or an opener. The first two are no letters; the openers of environment and cache
variables hold letters, but also a brace, which ends a word as well, so none can appear or vanish in
a word that is not followed by a brace (`Lexeme.next_of_readsWord`). `Move.Keeps` is this condition
on one token. -/

namespace CMakeSense

open Text (SameLetters)

namespace Lexeme

theorem isDelimiter_of_isLetter {c : UInt8} (letter : Ascii.isLetter c = true) :
    isDelimiter c = false := by
  refine Bool.eq_false_iff.mpr fun delimiter => ?_
  simp only [isDelimiter, Bool.or_eq_true, decide_eq_true_eq, or_assoc] at delimiter
  rcases delimiter with rfl | rfl | rfl | rfl | rfl <;> cases letter

theorem isDelimiter_eq_of_lower_eq {a b : UInt8} (same : Ascii.lower a = Ascii.lower b) :
    isDelimiter a = isDelimiter b := by
  rcases Ascii.eq_or_isLetter_of_lower_eq same with rfl | ⟨left, right⟩
  · rfl
  · rw [isDelimiter_of_isLetter left, isDelimiter_of_isLetter right]

/-- What stands before the brace of an opener. -/
def openerNames : List Text := [utf8 "$", utf8 "$ENV", utf8 "$CACHE"]

theorem isSome_opener?_iff {t : Text} :
    (opener? t).isSome = true ↔ ∃ name ∈ openerNames, name ++ [Ascii.openBrace] <+: t := by
  have plain : utf8 "$\x7b" = utf8 "$" ++ [Ascii.openBrace] := by decide +kernel
  have env : utf8 "$ENV\x7b" = utf8 "$ENV" ++ [Ascii.openBrace] := by decide +kernel
  have cache : utf8 "$CACHE\x7b" = utf8 "$CACHE" ++ [Ascii.openBrace] := by decide +kernel
  simp only [openerNames, List.mem_cons, List.not_mem_nil, or_false, exists_eq_or_imp,
    exists_eq_left, opener?, plain, env, cache, ← List.isPrefixOf_iff_prefix]
  split
  · simp_all
  split
  · simp_all
  split
  · simp_all
  · simp_all

/-- A word ends before a brace that no backslash takes along. -/
theorem wordLength_le_of_openBrace {before : Text} (plain : Ascii.backslash ∉ before)
    (rest : Text) : wordLength (before ++ Ascii.openBrace :: rest) ≤ before.length := by
  induction before with
  | nil =>
    rw [List.nil_append, wordLength.eq_def]
    simp [isDelimiter]
  | cons c before ih =>
    rw [List.mem_cons, not_or] at plain
    obtain ⟨first, plain⟩ := plain
    rw [List.cons_append, wordLength.eq_def]
    simp only
    split
    · exact Nat.zero_le _
    · rw [if_neg (Ne.symm first)]
      exact Nat.succ_le_succ (ih plain)

theorem wordLength_pos_of_isLetter {c : UInt8} (letter : Ascii.isLetter c = true) (t : Text) :
    0 < wordLength (c :: t) := by
  have other : c ≠ Ascii.dollar := by
    rintro rfl
    cases letter
  exact wordLength_pos (Ascii.isSpace_of_isLetter letter) (isDelimiter_of_isLetter letter)
    (opener?_eq_none other t)

/-- No word goes on behind a word. -/
theorem wordLength_drop (t : Text) : wordLength (t.drop (wordLength t)) = 0 := by
  fun_induction wordLength t with
  | case1 => rfl
  | case2 c t ends =>
    rw [List.drop_zero, wordLength.eq_def]
    simp only [ends]
    rfl
  | case3 => rfl
  | case4 d t goes ih => exact ih
  | case5 c t goes plain ih => exact ih

theorem wordLength_eq_zero_of_sameLetters {v v' : Text} (letters : SameLetters v v')
    (opener : (opener? v).isSome = true → (opener? v').isSome = true) (stops : wordLength v = 0) :
    wordLength v' = 0 := by
  cases v with
  | nil =>
    cases v' with
    | nil => rfl
    | cons c' t' => cases letters
  | cons c t =>
    cases v' with
    | nil => cases letters
    | cons c' t' =>
      obtain ⟨same, _⟩ := List.cons.inj letters
      rw [wordLength_eq_zero_iff] at stops ⊢
      rw [← Ascii.isSpace_eq_of_lower_eq same, ← isDelimiter_eq_of_lower_eq same]
      exact stops.imp_right (Or.imp_right opener)

theorem letter_of_mem_tail_openerNames {name : Text} (h : name ∈ openerNames) :
    (∀ c ∈ name.tail, Ascii.isLetter c = true) ∧ Ascii.backslash ∉ name.map Ascii.lower := by
  revert name
  decide +kernel

section Word
variable {w v w' v' : Text} (letters : SameLetters w w') (behind : SameLetters v v')
  (stops : wordLength v' = 0) (brace : w' = w ∨ v.head? ≠ some Ascii.openBrace)

include letters in
/-- A word that can be spelt with a brace in it ends before the brace. -/
theorem not_openBrace_inside (word : wordLength (w ++ v) = w.length) {name rest : Text}
    (plain : Ascii.backslash ∉ name.map Ascii.lower) :
    w' ≠ name ++ Ascii.openBrace :: rest := by
  rintro rfl
  have letters : w.map Ascii.lower = (name ++ Ascii.openBrace :: rest).map Ascii.lower := letters
  rw [List.map_append, List.map_cons] at letters
  obtain ⟨before, after, rfl, hbefore, hafter⟩ := List.map_eq_append_iff.mp letters
  obtain ⟨d, after, rfl, same, _⟩ := List.map_eq_cons_iff.mp hafter
  obtain rfl : d = Ascii.openBrace := Ascii.eq_of_lower_eq same rfl
  have free : Ascii.backslash ∉ before := by
    intro member
    rw [← hbefore] at plain
    exact plain (List.mem_map.mpr ⟨Ascii.backslash, member, rfl⟩)
  have short := wordLength_le_of_openBrace free (after ++ v)
  rw [List.append_assoc, List.cons_append, List.length_append, List.length_cons] at word
  omega

include letters behind stops brace

/-- No opener appears in a word. -/
theorem opener?_of_sameLetters (nonempty : w ≠ []) (word : wordLength (w ++ v) = w.length)
    (opener : opener? (w ++ v) = none) : opener? (w' ++ v') = none := by
  rw [← Option.isNone_iff_eq_none, ← Option.isSome_eq_false_iff, Bool.eq_false_iff]
  intro appears
  obtain ⟨name, member, tail, spelt⟩ := isSome_opener?_iff.mp appears
  obtain ⟨letter, plain⟩ := letter_of_mem_tail_openerNames member
  have ends : w' = name → v' ≠ Ascii.openBrace :: tail := by
    rintro rfl rfl
    have behind : v.map Ascii.lower = (Ascii.openBrace :: tail).map Ascii.lower := behind
    obtain ⟨d, rest, rfl, same, _⟩ := List.map_eq_cons_iff.mp behind
    obtain rfl : d = Ascii.openBrace := Ascii.eq_of_lower_eq same rfl
    rcases brace with rfl | other
    · have opens : (opener? (w' ++ Ascii.openBrace :: rest)).isSome = true :=
        isSome_opener?_iff.mpr ⟨w', member, rest, by simp⟩
      rw [opener] at opens
      cases opens
    · exact other rfl
  rw [List.append_assoc, List.singleton_append] at spelt
  rcases List.append_eq_append_iff.mp spelt with ⟨inner, hw, rest⟩ | ⟨outer, hname, rest⟩
  · cases inner with
    | nil => exact ends (hw.trans (List.append_nil _)) rest.symm
    | cons d inner =>
      obtain ⟨rfl, _⟩ := List.cons.inj rest
      exact not_openBrace_inside letters word plain hw
  · cases outer with
    | nil => exact ends (hname.trans (List.append_nil _)).symm rest
    | cons d outer =>
      cases w' with
      | nil => exact nonempty (List.length_eq_zero_iff.mp letters.length_eq)
      | cons e w' =>
        subst hname
        have large := letter d (by simp)
        rw [rest] at stops
        exact Nat.ne_of_gt (wordLength_pos_of_isLetter large _) stops

/-- A word in other letter case begins as it did. -/
theorem wordLength_ne_zero_of_sameLetters (nonempty : w ≠ [])
    (word : wordLength (w ++ v) = w.length) : wordLength (w' ++ v') ≠ 0 := by
  cases w with
  | nil => exact absurd rfl nonempty
  | cons c w =>
    cases w' with
    | nil => cases letters
    | cons c' w' =>
      obtain ⟨same, _⟩ := List.cons.inj letters
      have goes : wordLength (c :: w ++ v) ≠ 0 := by
        rw [word]
        exact Nat.succ_ne_zero _
      have opener := opener?_of_sameLetters letters behind stops brace nonempty word
        (opener?_eq_none_of_goes goes)
      rw [List.cons_append] at goes opener ⊢
      rw [ne_eq, wordLength_eq_zero_iff] at goes ⊢
      rw [← Ascii.isSpace_eq_of_lower_eq same, ← isDelimiter_eq_of_lower_eq same, opener]
      simp only [not_or] at goes ⊢
      exact ⟨goes.1, goes.2.1, by simp⟩

/-- A word in other letter case ends where it did. -/
theorem wordLength_of_sameLetters (word : wordLength (w ++ v) = w.length) :
    wordLength (w' ++ v') = w.length := by
  -- a backslash takes a byte along, so the induction is on the length of the word
  induction hn : w.length using Nat.strongRecOn generalizing w w' with
  | ind n ih =>
    subst hn
    cases w with
    | nil =>
      cases w' with
      | nil => exact stops
      | cons c' w' => cases letters
    | cons c w =>
      cases w' with
      | nil => cases letters
      | cons c' w' =>
        obtain ⟨same, tail⟩ := List.cons.inj letters
        have tail : SameLetters w w' := tail
        have goes : wordLength (c :: (w ++ v)) ≠ 0 := by
          rw [← List.cons_append, word]
          exact Nat.succ_ne_zero _
        have goes' : wordLength (c' :: (w' ++ v')) ≠ 0 :=
          wordLength_ne_zero_of_sameLetters letters behind stops brace (List.cons_ne_nil _ _) word
        by_cases escape : c = Ascii.backslash
        · subst escape
          obtain rfl : c' = Ascii.backslash := Ascii.eq_of_lower_eq same.symm rfl
          cases w with
          | nil =>
            obtain rfl : w' = [] := List.length_eq_zero_iff.mp tail.length_eq.symm
            cases v with
            | nil =>
              obtain rfl : v' = [] := List.length_eq_zero_iff.mp behind.length_eq.symm
              rfl
            | cons d v =>
              -- the backslash would take along what stands behind the word
              rw [List.singleton_append, wordLength_backslash] at word
              cases word
          | cons d w =>
            cases w' with
            | nil => cases tail
            | cons d' w' =>
              obtain ⟨_, tail⟩ := List.cons.inj tail
              rw [List.cons_append, List.cons_append, wordLength_backslash] at word ⊢
              have shorter : wordLength (w ++ v) = w.length := Nat.add_right_cancel word
              rw [ih w.length (by simp only [List.length_cons]; omega) tail ?_ shorter rfl]
              · rfl
              · exact brace.imp_left fun same => (List.cons.inj (List.cons.inj same).2).2
        · have plain : c' ≠ Ascii.backslash := by
            rintro rfl
            exact escape (Ascii.eq_of_lower_eq same rfl)
          rw [List.cons_append, wordLength_cons_of_goes goes escape] at word
          rw [List.cons_append, wordLength_cons_of_goes goes' plain]
          have shorter : wordLength (w ++ v) = w.length := Nat.add_right_cancel word
          rw [ih w.length (by simp) tail ?_ shorter rfl]
          · rfl
          · exact brace.imp_left fun same => (List.cons.inj same).2

end Word

theorem opener?_ne_openParen {t : Text} {kind : TokenKind} {n : Nat}
    (h : opener? t = some (kind, n)) : kind ≠ .openParen := by
  rintro rfl
  unfold opener? at h
  split at h
  · cases h
  split at h
  · cases h
  split at h
  · cases h
  · cases h

/-- The rule by which the token `l` at the head of `c :: t` is read. -/
inductive Rule (s : State) (c : UInt8) (t : Text) (l : Lexeme) : Prop where
  | comment (kind : l.kind = .comment)
  | string (kind : l.kind = .stringLiteral)
  | blanks (kind : l.kind = .whiteSpace)
  | openParen (eq : l = Lexeme.openParen s)
  | closeParen (kind : l.kind = .closeParen)
  | brace (kind : l.kind = .other)
  | opener (word : l.kind.isWord = false) (paren : l.kind ≠ .openParen)
  | word (reads : ReadsWord s c t)

theorem next_rule (s : State) (c : UInt8) (t : Text) : Rule s c t (next s c t) := by
  unfold next
  by_cases comment : s.inComment = true
  · rw [if_pos comment]
    exact .comment (commentBody_kind ..)
  rw [if_neg comment]
  by_cases string : s.inString = true
  · rw [if_pos string]
    exact .string rfl
  rw [if_neg string]
  by_cases hash : c = Ascii.hash
  · rw [if_pos hash]
    exact .comment (comment_kind ..)
  rw [if_neg hash]
  by_cases blank : Ascii.isSpace c = true
  · rw [if_pos blank]
    exact .blanks rfl
  rw [if_neg blank]
  split
  · exact .string rfl
  next quote =>
  split
  · exact .openParen rfl
  next opening =>
  split
  · exact .closeParen (closeParen_kind s)
  next closing =>
  split
  · exact .brace rfl
  next brace =>
  split
  · next found =>
    exact .opener (opener?_kind found).1 (opener?_ne_openParen found)
  · next none =>
    exact .word (.of_guards comment string hash blank quote opening closing brace none)

/-- A word is read only where no other rule applies. -/
theorem readsWord_of_isWord {s : State} {c : UInt8} {t : Text}
    (isWord : (next s c t).kind.isWord = true) : ReadsWord s c t := by
  cases next_rule s c t with
  | word reads => exact reads
  | opener word =>
    rw [word] at isWord
    cases isWord
  | openParen eq =>
    rw [eq, openParen_kind] at isWord
    cases isWord
  | comment kind | string kind | blanks kind | closeParen kind | brace kind =>
    rw [kind] at isWord
    cases isWord

/-- Only the rule for opening parentheses gives one. -/
theorem next_eq_openParen {s : State} {c : UInt8} {t : Text}
    (paren : (next s c t).kind = .openParen) : next s c t = openParen s := by
  cases next_rule s c t with
  | openParen eq => exact eq
  | opener _ other => exact absurd paren other
  | word reads =>
    have isWord := isWord_word s (c :: t)
    rw [← reads.next_eq, paren] at isWord
    cases isWord
  | comment kind | string kind | blanks kind | closeParen kind | brace kind =>
    rw [kind] at paren
    cases paren

/-- A run of blanks ends where letters stand in any case. -/
theorem blanks_of_sameLetters {s : State} {u v v' : Text} (behind : SameLetters v v')
    (within : (blanks s (u ++ v)).length ≤ u.length) : blanks s (u ++ v') = blanks s (u ++ v) := by
  by_cases all : (u.takeWhile Ascii.isSpace).length = u.length
  · rw [blanks, List.takeWhile_append, if_pos all] at within
    have none : v.takeWhile Ascii.isSpace = [] := by
      simp only [List.length_append] at within
      exact List.length_eq_zero_iff.mp (by omega)
    have none' : v'.takeWhile Ascii.isSpace = [] := by
      cases v with
      | nil =>
        rw [List.length_eq_zero_iff.mp behind.length_eq.symm]
        rfl
      | cons b r =>
        cases v' with
        | nil => rfl
        | cons b' r' =>
          have ends : ¬Ascii.isSpace b = true := by
            intro space
            rw [List.takeWhile_cons_of_pos space] at none
            cases none
          rw [Ascii.isSpace_eq_of_lower_eq (List.cons.inj behind).1] at ends
          exact List.takeWhile_cons_of_neg ends
    rw [blanks, blanks, List.takeWhile_append, List.takeWhile_append, none, none']
  · rw [blanks, blanks, List.takeWhile_append, if_neg all, List.takeWhile_append, if_neg all]

section Next
variable {s : State} {c c' : UInt8} {w v w' v' : Text} (behind : SameLetters v v')
  (length : (next s c (w ++ v)).length = (c :: w).length)
include behind length

/-- A word is the same in any letter case. -/
theorem next_of_readsWord (reads : ReadsWord s c (w ++ v))
    (letters : SameLetters (c :: w) (c' :: w'))
    (opener : (opener? v).isSome = true → (opener? v').isSome = true)
    (brace : c' :: w' = c :: w ∨ v.head? ≠ some Ascii.openBrace) :
    next s c' (w' ++ v') = next s c (w ++ v) := by
  have ends : wordLength (c :: w ++ v) = (c :: w).length := by
    rw [reads.next_eq, word_length_eq] at length
    exact length
  have stops : wordLength v' = 0 := by
    have none := wordLength_drop (c :: w ++ v)
    rw [ends, List.drop_left] at none
    exact wordLength_eq_zero_of_sameLetters behind opener none
  have ends' := wordLength_of_sameLetters letters behind stops brace ends
  rw [letters.length_eq] at ends'
  have none := opener?_of_sameLetters letters behind stops brace (List.cons_ne_nil _ _) ends
    reads.opener
  obtain ⟨head, _⟩ := List.cons.inj letters
  have reads' : ReadsWord s c' (w' ++ v') := by
    refine ⟨reads.comment, reads.string, ?_, ?_, ?_, none⟩
    · rintro rfl
      exact reads.hash (Ascii.eq_of_lower_eq head rfl)
    · rw [← Ascii.isSpace_eq_of_lower_eq head, reads.blank]
    · rw [← isDelimiter_eq_of_lower_eq head, reads.delimiter]
  rw [reads'.next_eq, reads.next_eq, ← List.cons_append, ← List.cons_append, word, word]
  simp only [ends, ends', List.take_left]
  rw [Command.ofName?_eq_of_sameLetters letters, letters.length_eq]

/-- A token that is no word is the same before letters in any case. -/
theorem next_of_not_readsWord (other : ¬ ReadsWord s c (w ++ v)) :
    next s c (w ++ v') = next s c (w ++ v) := by
  cases v with
  | nil => rw [List.length_eq_zero_iff.mp behind.length_eq.symm]
  | cons b r =>
    refine next_append_of_not_readsWord other (Nat.le_of_eq length) fun within => ?_
    exact blanks_of_sameLetters behind within

end Next

theorem kind_next_openBrace {s : State} (comment : s.inComment = false)
    (string : s.inString = false) (t : Text) : (next s Ascii.openBrace t).kind = .other := by
  have space : Ascii.isSpace Ascii.openBrace = false := by decide
  simp only [next, comment, string, space]
  rfl

end Lexeme

/-- The token keeps its bytes where the line holds `rest` from the token on, or it is the name of a
command, which is not followed by a brace. -/
def Move.Keeps (move : Move) (rest : Text) : Prop :=
  rest.take move.token.length = move.tokenText ∨
    move.token.kind.isWord = true ∧ move.before.depth.val = 0 ∧
      (move.rest.drop move.token.length).head? ≠ some Ascii.openBrace

/-- The same token, in other letter case where it is the name of a command. -/
structure Move.Recased (a b : Move) : Prop where
  token : b.token = a.token
  before : b.before = a.before
  after : b.after = a.after
  rest : SameLetters a.rest b.rest
  text : b.tokenText = a.tokenText ∨ a.token.kind.isWord = true ∧ a.before.depth.val = 0

namespace Scan

variable {s : State} {o : Nat} {rest rest' : Text}

/-- An opener keeps its bytes. -/
theorem isSome_opener?_of_keeps (comment : s.inComment = false) (string : s.inString = false)
    (keeps : ∀ move ∈ movesFrom s o rest, move.Keeps (rest'.drop (move.token.start - o)))
    (opens : (Lexeme.opener? rest).isSome = true) : (Lexeme.opener? rest').isSome = true := by
  cases rest with
  | nil => cases opens
  | cons c t =>
    obtain ⟨⟨kind, n⟩, found⟩ := Option.isSome_iff_exists.mp opens
    have next := Lexeme.next_of_opener comment string found
    rw [movesFrom] at keeps
    have own := keeps _ List.mem_cons_self
    simp only [Move.Keeps, Move.tokenText, Lexeme.token, Token.length, Nat.add_sub_cancel_left,
      Nat.sub_self, List.drop_zero, next, (Lexeme.opener?_kind found).1,
      Bool.false_eq_true, false_and, or_false] at own
    have within := (Lexeme.opener?_spec found).2
    have whole : (c :: t).take n ++ (c :: t).drop n = c :: t := List.take_append_drop ..
    have whole' : (c :: t).take n ++ rest'.drop n = rest' := by
      rw [← own, List.take_append_drop]
    rw [← whole] at found
    have same := Lexeme.opener?_append_of_le found
      (by rw [List.length_take, Nat.min_eq_left within]) (rest'.drop n)
    rw [whole'] at same
    rw [same]
    rfl

/-- What tokens keep, seen from where they begin. -/
theorem keeps_drop {n : Nat} (keeps : ∀ move ∈ movesFrom s (o + n) rest,
      move.Keeps (rest'.drop (move.token.start - o))) :
    ∀ move ∈ movesFrom s (o + n) rest,
      move.Keeps ((rest'.drop n).drop (move.token.start - (o + n))) := by
  intro move member
  have kept := keeps move member
  have start := le_start_of_mem_movesFrom member
  rw [List.drop_drop]
  rwa [show move.token.start - o = n + (move.token.start - (o + n)) by omega] at kept

/-- The first token of a line is the same in other letter case. -/
theorem next_of_keeps {c c' : UInt8} {t t' : Text} (letters : SameLetters (c :: t) (c' :: t'))
    (keeps : ∀ move ∈ movesFrom s o (c :: t),
      move.Keeps ((c' :: t').drop (move.token.start - o))) :
    Lexeme.next s c' t' = Lexeme.next s c t := by
  rw [movesFrom] at keeps
  obtain ⟨head, tail⟩ := List.forall_mem_cons.mp keeps
  obtain ⟨m, hm⟩ := Nat.exists_eq_add_one_of_ne_zero (Nat.ne_of_gt (Lexeme.next_length_pos s c t))
  have within := Lexeme.next_length_le s c t
  have whole : t.take m ++ t.drop m = t := List.take_append_drop m t
  have whole' : t'.take m ++ t'.drop m = t' := List.take_append_drop m t'
  obtain ⟨_, letters'⟩ := List.cons.inj letters
  have behind : SameLetters (t.drop m) (t'.drop m) := SameLetters.drop letters' m
  have length : (Lexeme.next s c (t.take m ++ t.drop m)).length = (c :: t.take m).length := by
    rw [whole, List.length_cons, List.length_take]
    rw [List.length_cons] at within
    omega
  simp only [Move.Keeps, Move.tokenText, Lexeme.token, Token.length, Nat.add_sub_cancel_left,
    Nat.sub_self, List.drop_zero, hm, List.take_succ_cons, List.drop_succ_cons] at head
  by_cases reads : Lexeme.ReadsWord s c t
  · have opener : (Lexeme.opener? (t.drop m)).isSome = true →
        (Lexeme.opener? (t'.drop m)).isSome = true := by
      have tail := keeps_drop tail
      rw [hm, reads.next_eq] at tail
      refine isSome_opener?_of_keeps ?_ ?_ tail
      · rw [Lexeme.inComment_word, reads.comment]
      · rw [Lexeme.inString_word, reads.string]
    have next := Lexeme.next_of_readsWord behind length (whole.symm ▸ reads) (letters.take (m + 1))
      opener (head.imp_right fun name => name.2.2)
    rwa [whole, whole'] at next
  · have own : c' :: t'.take m = c :: t.take m := by
      refine head.resolve_right fun name => reads (Lexeme.readsWord_of_isWord name.1)
    obtain ⟨rfl, same⟩ := List.cons.inj own
    have next := Lexeme.next_of_not_readsWord behind length (whole.symm ▸ reads)
    rwa [whole, ← same, whole'] at next

/-- Names in other letter case leave the tokens of a line as they are. -/
theorem forall₂_movesFrom_of_keeps (letters : SameLetters rest rest')
    (keeps : ∀ move ∈ movesFrom s o rest, move.Keeps (rest'.drop (move.token.start - o))) :
    List.Forall₂ Move.Recased (movesFrom s o rest) (movesFrom s o rest') := by
  fun_induction movesFrom s o rest generalizing rest' with
  | case1 s o =>
    obtain rfl : rest' = [] := List.length_eq_zero_iff.mp letters.length_eq.symm
    rw [movesFrom]
    exact .nil
  | case2 s o c t lexeme =>
    rename_i ih
    cases rest' with
    | nil => cases letters
    | cons c' t' =>
      have next : Lexeme.next s c' t' = lexeme := by
        refine next_of_keeps (o := o) letters ?_
        rw [movesFrom]
        exact keeps
      have tail := ih (letters.drop lexeme.length)
        (keeps_drop fun move member => keeps move (List.mem_cons_of_mem _ member))
      have head : Move.Keeps _ ((c' :: t').drop (o - o)) := keeps _ List.mem_cons_self
      rw [Nat.sub_self, List.drop_zero] at head
      rw [movesFrom, next]
      refine .cons ⟨rfl, rfl, rfl, letters, ?_⟩ tail
      exact head.imp_right fun name => ⟨name.1, name.2.1⟩

end Scan

/-- The token of a step. -/
def Step.move (step : Step) : Move := ⟨step.token, step.rest, step.before, step.after⟩

/-- The same step, in other letter case where it is the name of a command. -/
structure Step.Recased (a b : Step) : Prop where
  line : b.line = a.line
  move : a.move.Recased b.move

namespace Walk

theorem final_eq_of_recased {moves moves' : List Move} (h : List.Forall₂ Move.Recased moves moves')
    (s : State) : Scan.final s moves' = Scan.final s moves := by
  induction h generalizing s with
  | nil => rfl
  | cons same _ ih =>
    rw [Scan.final, List.foldl_cons, same.after, Scan.final, List.foldl_cons]
    exact ih _

/-- Names in other letter case leave the steps of a script as they are. -/
theorem forall₂_stepsFrom_of_keeps {first : Nat} {s : State} {lines lines' : List Text}
    (letters : List.Forall₂ SameLetters lines lines')
    (keeps : ∀ step ∈ stepsFrom first s lines, ∀ text, lines'[step.line - first]? = some text →
      step.move.Keeps (text.drop step.token.start)) :
    List.Forall₂ Step.Recased (stepsFrom first s lines) (stepsFrom first s lines') := by
  induction letters generalizing first s with
  | nil => exact .nil
  | @cons text text' lines lines' same _ ih =>
    rw [stepsFrom] at keeps
    have moves : List.Forall₂ Move.Recased (Scan.moves s text) (Scan.moves s text') := by
      rw [Scan.moves_eq, Scan.moves_eq]
      refine Scan.forall₂_movesFrom_of_keeps same fun move member => ?_
      rw [← Scan.moves_eq] at member
      exact keeps (Step.ofMove first move)
        (List.mem_append_left _ (List.mem_map_of_mem member)) text' (by simp [Step.ofMove])
    rw [stepsFrom, stepsFrom, Scan.stateAfter, Scan.stateAfter, final_eq_of_recased moves]
    refine List.rel_append ?_ (ih fun step member text found => ?_)
    · rw [List.forall₂_map_left_iff, List.forall₂_map_right_iff]
      exact moves.imp fun _ _ recased => ⟨rfl, recased⟩
    · have below := (line_of_mem_stepsFrom member).1
      refine keeps step (List.mem_append_right _ member) text ?_
      rwa [show step.line - first = step.line - (first + 1) + 1 by omega]

end Walk

end CMakeSense
