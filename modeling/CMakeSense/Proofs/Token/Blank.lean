import CMakeSense.Proofs.Token.Plain
import CMakeSense.Proofs.Token.Resemblance
import CMakeSense.Proofs.Token.Tiling
import CMakeSense.Proofs.Token.Walk
import Mathlib.Data.List.Infix

/-! Lines cut at the end of a word. A token that ends before a blank, or before anything else that
ends words but a brace (`Lexeme.EndsWord`), is the same whatever of that kind stands there and
whatever follows it, and also at the end of the line (`Lexeme.next_append_of_endsWord`): no token
that goes on to the right depends on more than what stands directly behind it, and that ends it. So
a line can be cut there, and what stands to the left of the cut is scanned into the same tokens
(`Scan.movesFrom_append_of_endsWord`). Mostly the cut is before a run of blanks
(`Scan.movesFrom_append_of_blank`). -/

namespace CMakeSense

namespace Text

/-- The text is empty or begins with a blank. -/
def BeginsBlank (t : Text) : Prop := ∀ c ∈ t.head?, Ascii.isSpace c = true

theorem beginsBlank_nil : BeginsBlank [] := nofun

theorem beginsBlank_cons {c : UInt8} {t : Text} (h : Ascii.isSpace c = true) :
    BeginsBlank (c :: t) := by
  rintro d ⟨⟩
  exact h

/-- What begins with a byte that the prefix does not have adds nothing to it. -/
theorem isPrefixOf_append_of_notMem {p rest : Text} (h : ∀ c ∈ rest.head?, c ∉ p) (u : Text) :
    p.isPrefixOf (u ++ rest) = p.isPrefixOf u := by
  induction p generalizing u with
  | nil => simp
  | cons a p ih =>
    cases u with
    | nil =>
      cases rest with
      | nil => rfl
      | cons b r =>
        have differs : a ≠ b := by
          rintro rfl
          exact h a rfl List.mem_cons_self
        simp [List.isPrefixOf, differs]
    | cons d u =>
      simp only [List.cons_append, List.isPrefixOf]
      rw [ih fun c first member => h c first (List.mem_cons_of_mem a member)]

/-- An occurrence in the left part of a text is there whatever follows. -/
theorem indexOf?_append_of_le {p u v : Text} {i : Nat} (nonempty : p ≠ [])
    (found : indexOf? p (u ++ v) = some i) (within : i + p.length ≤ u.length) (rest : Text) :
    indexOf? p (u ++ rest) = some i := by
  induction u generalizing i with
  | nil =>
    have := List.length_pos_iff.mpr nonempty
    simp only [List.length_nil] at within
    omega
  | cons c u ih =>
    have short : p.length ≤ (c :: u).length := by omega
    have same : p.isPrefixOf (c :: (u ++ rest)) = p.isPrefixOf (c :: (u ++ v)) := by
      rw [Bool.eq_iff_iff, List.isPrefixOf_iff_prefix, List.isPrefixOf_iff_prefix,
        ← List.cons_append, ← List.cons_append, List.isPrefix_append_of_length short,
        List.isPrefix_append_of_length short]
    simp only [List.cons_append, indexOf?] at found ⊢
    rw [same]
    split at found
    · next here => rw [if_pos here, found]
    · next later =>
      rw [if_neg later]
      obtain ⟨j, behind, rfl⟩ := Option.map_eq_some_iff.mp found
      rw [List.length_cons] at within
      rw [ih behind (by omega)]
      rfl

end Text

namespace Lexeme

/-- The opening delimiter of a bracket comment behind its hash sign. -/
def commentOpener (level : Nat) : Text :=
  Ascii.openBracket :: List.replicate level Ascii.equals ++ [Ascii.openBracket]

theorem length_commentOpener (level : Nat) : (commentOpener level).length = level + 2 := by
  simp [commentOpener]

/-- The level of a bracket comment is read off its opener. -/
theorem commentLevel?_eq_some_iff {t : Text} {n : Nat} :
    commentLevel? t = some n ↔ commentOpener n <+: t := by
  constructor
  · intro level
    cases t with
    | nil => cases level
    | cons c t =>
      simp only [commentLevel?] at level
      split at level
      · next opens =>
        split at level
        · next d body rest =>
          split at level
          · next closes =>
            cases level
            have signs : t.takeWhile (· = Ascii.equals) =
                List.replicate (t.takeWhile (· = Ascii.equals)).length Ascii.equals := by
              refine List.eq_replicate_iff.mpr ⟨rfl, fun b member => ?_⟩
              exact of_decide_eq_true (List.all_eq_true.mp List.all_takeWhile b member)
            have parts : t.takeWhile (· = Ascii.equals) ++ t.dropWhile (· = Ascii.equals) = t :=
              List.takeWhile_append_dropWhile
            rw [rest, closes, signs] at parts
            refine ⟨body, ?_⟩
            rw [commentOpener, List.append_assoc, opens]
            exact congrArg (Ascii.openBracket :: ·) parts
          · cases level
        · cases level
      · cases level
  · rintro ⟨body, rfl⟩
    have sign : ∀ b ∈ List.replicate n Ascii.equals, decide (b = Ascii.equals) = true := by
      intro b member
      exact decide_eq_true (List.eq_of_mem_replicate member)
    have bracket : decide (Ascii.openBracket = Ascii.equals) = false := by decide
    simp [commentLevel?, commentOpener, List.takeWhile_append_of_pos sign,
      List.dropWhile_append_of_pos sign, bracket]

theorem commentLevel?_eq_none {t : Text} (h : ∀ n, ¬ commentOpener n <+: t) :
    commentLevel? t = none := by
  cases level : commentLevel? t with
  | none => rfl
  | some n => exact absurd (commentLevel?_eq_some_iff.mp level) (h n)

/-- The text ends a word that stands before it. An opening brace does so too, but it may also
complete an opener. -/
structure EndsWord (rest : Text) : Prop where
  word : wordLength rest = 0
  brace : rest.head? ≠ some Ascii.openBrace

theorem endsWord_of_beginsBlank {rest : Text} (begins : rest.BeginsBlank) : EndsWord rest := by
  cases rest with
  | nil => exact ⟨rfl, nofun⟩
  | cons b r =>
    have blank := begins b rfl
    refine ⟨?_, ?_⟩
    · rw [wordLength.eq_def]
      simp [blank]
    · rintro ⟨⟩
      cases blank

section
variable {rest : Text} (ends : EndsWord rest)
include ends

/-- No opener goes on with what ends a word. -/
theorem EndsWord.notMem {c : UInt8} (first : c ∈ rest.head?) : c ∉ utf8 "ENVCACHE\x7b" := by
  intro member
  have bytes : ∀ c ∈ utf8 "ENVCACHE\x7b", isPlain c = true ∨ c = Ascii.openBrace := by
    decide +kernel
  obtain ⟨word, brace⟩ := ends
  cases rest with
  | nil => cases first
  | cons b r =>
    cases first
    rcases bytes _ member with plain | rfl
    · rw [wordLength_cons plain] at word
      cases word
    · exact brace rfl

theorem opener?_cons_append (c : UInt8) (t : Text) :
    opener? (c :: t ++ rest) = opener? (c :: t) := by
  have tail {p : Text} (bytes : ∀ c ∈ p, c ∈ utf8 "ENVCACHE\x7b") :
      (Ascii.dollar :: p).isPrefixOf (c :: (t ++ rest)) =
        (Ascii.dollar :: p).isPrefixOf (c :: t) := by
    simp only [List.isPrefixOf]
    rw [Text.isPrefixOf_append_of_notMem]
    exact fun b first member => ends.notMem first (bytes b member)
  have openers : utf8 "$\x7b" = Ascii.dollar :: utf8 "\x7b" ∧
      utf8 "$ENV\x7b" = Ascii.dollar :: utf8 "ENV\x7b" ∧
      utf8 "$CACHE\x7b" = Ascii.dollar :: utf8 "CACHE\x7b" := ⟨rfl, rfl, rfl⟩
  simp only [opener?, openers, List.cons_append]
  rw [tail (by decide +kernel), tail (by decide +kernel), tail (by decide +kernel)]

theorem wordLength_cons_append (c : UInt8) (t : Text) : wordLength (c :: t ++ rest) =
    if Ascii.isSpace c || isDelimiter c || (opener? (c :: t)).isSome then 0
    else if c = Ascii.backslash then
      match t ++ rest with
      | [] => 1
      | _ :: t => wordLength t + 2
    else wordLength (t ++ rest) + 1 := by
  rw [← opener?_cons_append ends]
  exact wordLength.eq_def ..

end

section
variable {b : UInt8} {r rest : Text}

/-- A word that ends before such a text ends before any other one. -/
theorem wordLength_append_of_endsWord (ends : EndsWord (b :: r)) (ends' : EndsWord rest) {u : Text}
    (within : wordLength (u ++ b :: r) ≤ u.length) :
    wordLength (u ++ rest) = wordLength (u ++ b :: r) := by
  fun_induction wordLength u with
  | case1 => rw [List.nil_append, List.nil_append, ends.word, ends'.word]
  | case2 c t stops =>
    rw [wordLength_cons_append ends, wordLength_cons_append ends', if_pos stops, if_pos stops]
  | case3 goes =>
    -- The backslash would take the byte behind it along.
    rw [wordLength_cons_append ends, if_neg goes, if_pos rfl] at within
    have : wordLength r + 2 ≤ 1 := within
    omega
  | case4 d t goes ih =>
    rw [wordLength_cons_append ends, if_neg goes, if_pos rfl] at within
    have shorter : wordLength (t ++ b :: r) + 2 ≤ t.length + 2 := within
    rw [wordLength_cons_append ends, wordLength_cons_append ends', if_neg goes, if_neg goes,
      if_pos rfl, if_pos rfl]
    simp only [List.cons_append]
    rw [ih (Nat.le_of_add_le_add_right shorter)]
  | case5 c t goes plain ih =>
    rw [wordLength_cons_append ends, if_neg goes, if_neg plain] at within
    simp only [List.length_cons] at within
    rw [wordLength_cons_append ends, wordLength_cons_append ends', if_neg goes, if_neg goes,
      if_neg plain, if_neg plain, ih (by omega)]

/-- A string that is closed in the left part of a text is closed there whatever follows. -/
theorem stringLength_append_of_le {u : Text} (within : (stringLength (u ++ b :: r)).1 ≤ u.length)
    (rest : Text) : stringLength (u ++ rest) = stringLength (u ++ b :: r) := by
  fun_induction stringLength u with
  | case1 =>
    have := stringLength_pos b r
    simp only [List.nil_append, List.length_nil] at within
    omega
  | case2 =>
    rw [stringLength.eq_def] at within
    simp only [List.cons_append, List.nil_append, if_true, List.length_singleton] at within
    omega
  | case3 d t ih =>
    rw [stringLength.eq_def] at within
    simp only [List.cons_append, if_true, List.length_cons] at within
    rw [stringLength.eq_def, stringLength.eq_def (_ ++ b :: r)]
    simp only [List.cons_append, if_true]
    rw [ih (by omega)]
  | case4 t plain =>
    rw [stringLength.eq_def, stringLength.eq_def (_ ++ b :: r)]
    simp only [List.cons_append, if_neg plain, if_true]
  | case5 c t plain quote ih =>
    rw [stringLength.eq_def] at within
    simp only [List.cons_append, if_neg plain, if_neg quote, List.length_cons] at within
    rw [stringLength.eq_def, stringLength.eq_def (_ ++ b :: r)]
    simp only [List.cons_append, if_neg plain, if_neg quote]
    rw [ih (by omega)]

theorem taken_le_commentBody (s : State) (taken : Nat) (body : Text) :
    taken ≤ (commentBody s taken body).length := by
  unfold commentBody
  simp only
  split
  · simp only
    omega
  · exact Nat.le_add_right ..

/-- A comment that is closed in the left part of a text is closed there whatever follows. -/
theorem commentBody_append_of_le {s : State} {taken : Nat} {u : Text}
    (within : (commentBody s taken (u ++ b :: r)).length ≤ taken + u.length) (rest : Text) :
    commentBody s taken (u ++ rest) = commentBody s taken (u ++ b :: r) := by
  unfold commentBody at within ⊢
  simp only at within ⊢
  cases found : Text.indexOf? (commentCloser s.level) (u ++ b :: r) with
  | none =>
    simp only [found, List.length_append, List.length_cons] at within
    omega
  | some i =>
    simp only [found] at within
    have nonempty : commentCloser s.level ≠ [] := List.cons_ne_nil _ _
    rw [Text.indexOf?_append_of_le nonempty found (by omega) rest]

theorem comment_append_of_le {s : State} {t : Text}
    (within : (comment s (t ++ b :: r)).length ≤ t.length + 1) (rest : Text) :
    comment s (t ++ rest) = comment s (t ++ b :: r) := by
  unfold comment at within ⊢
  cases level : commentLevel? (t ++ b :: r) with
  | none =>
    simp only [level, List.length_append, List.length_cons] at within
    omega
  | some n =>
    simp only [level] at within
    have inside : n + 2 ≤ t.length := by
      have := taken_le_commentBody ({ s with inComment := true }.withLevel n) (n + 3)
        ((t ++ b :: r).drop (n + 2))
      omega
    have level' : commentLevel? (t ++ rest) = some n := by
      rw [commentLevel?_eq_some_iff] at level ⊢
      rw [← length_commentOpener] at inside
      rw [List.isPrefix_append_of_length inside] at level ⊢
      exact level
    rw [level']
    simp only
    rw [List.drop_append_of_le_length inside] at within ⊢
    rw [List.drop_append_of_le_length inside]
    refine commentBody_append_of_le ?_ rest
    rw [List.length_drop]
    omega

/-- An opener is found by its own bytes. -/
theorem opener?_append_of_le {u v : Text} {kind : TokenKind} {n : Nat}
    (found : opener? (u ++ v) = some (kind, n)) (within : n ≤ u.length) (v' : Text) :
    opener? (u ++ v') = some (kind, n) := by
  have same (p : Text) (short : p.length ≤ u.length) :
      p.isPrefixOf (u ++ v') = p.isPrefixOf (u ++ v) := by
    rw [Bool.eq_iff_iff, List.isPrefixOf_iff_prefix, List.isPrefixOf_iff_prefix,
      List.isPrefix_append_of_length short, List.isPrefix_append_of_length short]
  have plain : (utf8 "$\x7b").length = 2 := by decide +kernel
  have env : (utf8 "$ENV\x7b").length = 5 := by decide +kernel
  have cache : (utf8 "$CACHE\x7b").length = 7 := by decide +kernel
  unfold opener? at found ⊢
  split at found
  · next here =>
    cases found
    rw [same _ (by omega), if_pos here]
  next first =>
  split at found
  · next here =>
    cases found
    rw [same _ (by omega), if_neg first, same _ (by omega), if_pos here]
  next second =>
  split at found
  · next here =>
    cases found
    rw [same _ (by omega), if_neg first, same _ (by omega), if_neg second, same _ (by omega),
      if_pos here]
  · cases found

/-- Where no guard of the other rules holds, a word is read. -/
theorem ReadsWord.of_guards {s : State} {c : UInt8} {t : Text} (comment : ¬s.inComment = true)
    (string : ¬s.inString = true) (hash : ¬c = Ascii.hash) (blank : ¬Ascii.isSpace c = true)
    (quote : ¬c = Ascii.quote) (opening : ¬c = Ascii.openParen) (closing : ¬c = Ascii.closeParen)
    (brace : ¬(c = Ascii.openBrace || c = Ascii.closeBrace) = true)
    (opener : opener? (c :: t) = none) : ReadsWord s c t where
  comment := Bool.eq_false_iff.mpr comment
  string := Bool.eq_false_iff.mpr string
  hash := hash
  blank := Bool.eq_false_iff.mpr blank
  delimiter := by simp_all [isDelimiter]
  opener := opener

/-- A token that is neither blank nor a word depends on its own bytes alone. -/
theorem next_append_of_not_readsWord {s : State} {c : UInt8} {t : Text}
    (other : ¬ ReadsWord s c (t ++ b :: r))
    (within : (next s c (t ++ b :: r)).length ≤ t.length + 1)
    (blanks_eq : (blanks s (c :: t ++ b :: r)).length ≤ (c :: t).length →
      blanks s (c :: t ++ rest) = blanks s (c :: t ++ b :: r)) :
    next s c (t ++ rest) = next s c (t ++ b :: r) := by
  unfold next at within ⊢
  by_cases comment : s.inComment = true
  · rw [if_pos comment] at within
    rw [if_pos comment, if_pos comment]
    exact commentBody_append_of_le (u := c :: t) (by simpa using within) rest
  rw [if_neg comment] at within
  rw [if_neg comment, if_neg comment]
  by_cases string : s.inString = true
  · rw [if_pos string] at within
    rw [if_pos string, if_pos string]
    have shorter : (stringLength (c :: t ++ b :: r)).1 ≤ (c :: t).length := by
      simpa [stringBody] using within
    have same := stringLength_append_of_le shorter rest
    rw [List.cons_append, List.cons_append] at same
    rw [stringBody, stringBody, same]
  rw [if_neg string] at within
  rw [if_neg string, if_neg string]
  by_cases hash : c = Ascii.hash
  · rw [if_pos hash] at within
    rw [if_pos hash, if_pos hash]
    exact comment_append_of_le within rest
  rw [if_neg hash] at within
  rw [if_neg hash, if_neg hash]
  by_cases space : Ascii.isSpace c = true
  · rw [if_pos space] at within
    rw [if_pos space, if_pos space]
    exact blanks_eq within
  rw [if_neg space] at within
  rw [if_neg space, if_neg space]
  by_cases quote : c = Ascii.quote
  · rw [if_pos quote] at within
    rw [if_pos quote, if_pos quote]
    have shorter : (stringLength (t ++ b :: r)).1 ≤ t.length := by
      simp only [stringBody] at within
      omega
    rw [stringBody, stringBody, stringLength_append_of_le shorter rest]
  rw [if_neg quote] at within
  rw [if_neg quote, if_neg quote]
  split
  · rfl
  next opening =>
  rw [if_neg opening] at within
  split
  · rfl
  next closing =>
  rw [if_neg closing] at within
  split
  · rfl
  next brace =>
  rw [if_neg brace] at within
  cases found : opener? (c :: (t ++ b :: r)) with
  | none =>
    exact absurd (.of_guards comment string hash space quote opening closing brace found) other
  | some pair =>
    obtain ⟨kind, n⟩ := pair
    simp only [found] at within
    have same := opener?_append_of_le (u := c :: t) found within rest
    rw [List.cons_append] at same
    simp only [same]

section
variable (ends : EndsWord (b :: r)) (ends' : EndsWord rest)
  (space : ∀ d ∈ rest.head?, Ascii.isSpace d = true → Ascii.isSpace b = true)
  {s : State} {c : UInt8} {t : Text}

include space in
/-- A run of blanks ends where no blank follows. -/
theorem blanks_append_of_le {u : Text} (within : (blanks s (u ++ b :: r)).length ≤ u.length) :
    blanks s (u ++ rest) = blanks s (u ++ b :: r) := by
  by_cases all : (u.takeWhile Ascii.isSpace).length = u.length
  · have other : ¬ Ascii.isSpace b = true := by
      intro blank
      rw [blanks, List.takeWhile_append, if_pos all, List.takeWhile_cons_of_pos blank] at within
      simp only [List.length_append, List.length_cons] at within
      omega
    have none : rest.takeWhile Ascii.isSpace = [] := by
      cases rest with
      | nil => rfl
      | cons d rest => exact List.takeWhile_cons_of_neg fun blank => other (space d rfl blank)
    rw [blanks, blanks, List.takeWhile_append, List.takeWhile_append, none,
      List.takeWhile_cons_of_neg other]
  · rw [blanks, blanks, List.takeWhile_append, if_neg all, List.takeWhile_append, if_neg all]

include ends ends'

theorem word_append_of_endsWord {u : Text} (within : (word s (u ++ b :: r)).length ≤ u.length) :
    word s (u ++ rest) = word s (u ++ b :: r) := by
  rw [word_length_eq] at within
  have same := wordLength_append_of_endsWord ends ends' within
  simp only [word, same, List.take_append_of_le_length within]

include space

/-- A token that ends before what ends words is the same before any other such text, where this does
not go on with blanks. -/
theorem next_append_of_endsWord (within : (next s c (t ++ b :: r)).length ≤ t.length + 1) :
    next s c (t ++ rest) = next s c (t ++ b :: r) := by
  by_cases reads : ReadsWord s c (t ++ b :: r)
  · have opener := opener?_cons_append ends' c t
    rw [← opener?_cons_append ends c t, List.cons_append, List.cons_append, reads.opener] at opener
    have reads' : ReadsWord s c (t ++ rest) := { reads with opener }
    rw [reads.next_eq] at within
    rw [reads'.next_eq, reads.next_eq]
    exact word_append_of_endsWord ends ends' (u := c :: t) within
  · exact next_append_of_not_readsWord reads within fun within =>
      blanks_append_of_le space (u := c :: t) within

end

end

/-- A token is a run of blanks only where blanks are. -/
theorem blank_of_next_kind {s : State} {c : UInt8} {t : Text}
    (h : (next s c t).kind = .whiteSpace) :
    s.inComment = false ∧ s.inString = false ∧ Ascii.isSpace c = true := by
  unfold next at h
  split at h
  · rw [commentBody_kind] at h
    cases h
  next comment =>
  split at h
  · cases h
  next string =>
  split at h
  · rw [comment_kind] at h
    cases h
  split at h
  · next space => exact ⟨by simpa using comment, by simpa using string, space⟩
  split at h
  · cases h
  split at h
  · rw [openParen_kind] at h
    cases h
  split at h
  · rw [closeParen_kind] at h
    cases h
  split at h
  · cases h
  split at h
  · next opener => exact absurd h (opener?_kind opener).2.1
  · have isWord := isWord_word s (c :: t)
    rw [h] at isWord
    cases isWord

end Lexeme

namespace Scan

variable {b : UInt8} {r : Text}

/-- What stands before the end of a word is scanned into the same tokens before any other one, where
this does not go on with blanks. -/
theorem movesFrom_append_of_endsWord (ends : Lexeme.EndsWord (b :: r)) {s : State} {o : Nat}
    {u : Text} {move : Move} (h : move ∈ movesFrom s o (u ++ b :: r))
    (start : move.token.start = o + u.length) :
    ∃ xs, movesFrom s o (u ++ b :: r) = xs ++ movesFrom move.before (o + u.length) (b :: r) ∧
      ∀ rest : Text, Lexeme.EndsWord rest →
        (∀ d ∈ rest.head?, Ascii.isSpace d = true → Ascii.isSpace b = true) →
        ∃ ys, List.Forall₂ Move.Alike xs ys ∧
          movesFrom s o (u ++ rest) = ys ++ movesFrom move.before (o + u.length) rest ∧
          final s ys = move.before := by
  match u with
  | [] =>
    -- No token further right starts here, so the rest is scanned from `s` itself.
    have here : move.before = s := by
      rw [List.nil_append, movesFrom] at h
      rcases List.mem_cons.mp h with rfl | later
      · rfl
      · have := le_start_of_mem_movesFrom later
        have := Lexeme.next_length_pos s b r
        simp only [List.length_nil] at start
        omega
    rw [here]
    exact ⟨[], rfl, fun rest _ _ => ⟨[], .nil, rfl, rfl⟩⟩
  | c :: t =>
    let lexeme := Lexeme.next s c (t ++ b :: r)
    have scan : movesFrom s o (c :: t ++ b :: r) = ⟨lexeme.token o, c :: t ++ b :: r, s,
        lexeme.after⟩ :: movesFrom lexeme.after (o + lexeme.length)
          ((c :: t ++ b :: r).drop lexeme.length) := by
      rw [List.cons_append, movesFrom]
    have later : move ∈ movesFrom lexeme.after (o + lexeme.length)
        ((c :: t ++ b :: r).drop lexeme.length) := by
      rw [scan] at h
      rcases List.mem_cons.mp h with rfl | later
      · simp only [Lexeme.token, List.length_cons] at start
        omega
      · exact later
    have within : lexeme.length ≤ (c :: t).length := by
      have := le_start_of_mem_movesFrom later
      omega
    rw [List.drop_append_of_le_length within] at later scan
    have offset : o + lexeme.length + ((c :: t).drop lexeme.length).length =
        o + (c :: t).length := by
      rw [List.length_drop]
      omega
    obtain ⟨xs, hxs, others⟩ := movesFrom_append_of_endsWord ends later (start.trans offset.symm)
    rw [offset] at hxs others
    refine ⟨⟨lexeme.token o, c :: t ++ b :: r, s, lexeme.after⟩ :: xs, ?_,
      fun rest ends' space => ?_⟩
    · rw [scan, hxs]
      rfl
    obtain ⟨ys, alike, hys, last⟩ := others rest ends' space
    have same : Lexeme.next s c (t ++ rest) = lexeme :=
      Lexeme.next_append_of_endsWord ends ends' space (by simpa using within)
    refine ⟨⟨lexeme.token o, c :: t ++ rest, s, lexeme.after⟩ :: ys, .cons ?_ alike, ?_, last⟩
    · refine ⟨rfl, rfl, rfl, ?_, rfl, rfl⟩
      have length := lexeme.length_token o
      simp only [Move.tokenText, length, List.take_append_of_le_length within]
    · rw [List.cons_append, movesFrom, same, ← List.cons_append,
        List.drop_append_of_le_length within, hys]
      rfl
termination_by u.length
decreasing_by
  have := Lexeme.next_length_pos s c (t ++ b :: r)
  simp only [List.length_drop, List.length_cons]
  omega

/-- What stands before a run of blanks is scanned into the same tokens before any other blank and
at the end of the line. -/
theorem movesFrom_append_of_blank (blank : Ascii.isSpace b = true) {s : State} {o : Nat} {u : Text}
    {move : Move} (h : move ∈ movesFrom s o (u ++ b :: r))
    (start : move.token.start = o + u.length) :
    ∃ xs, movesFrom s o (u ++ b :: r) = xs ++ movesFrom move.before (o + u.length) (b :: r) ∧
      ∀ rest : Text, rest.BeginsBlank → ∃ ys, List.Forall₂ Move.Alike xs ys ∧
        movesFrom s o (u ++ rest) = ys ++ movesFrom move.before (o + u.length) rest ∧
        final s ys = move.before := by
  have ends := Lexeme.endsWord_of_beginsBlank (Text.beginsBlank_cons (t := r) blank)
  obtain ⟨xs, hxs, others⟩ := movesFrom_append_of_endsWord ends h start
  refine ⟨xs, hxs, fun rest begins => ?_⟩
  exact others rest (Lexeme.endsWord_of_beginsBlank begins) fun _ _ _ => blank

/-- A run of blanks and what follows it. -/
theorem movesFrom_blanks {s : State} (comment : s.inComment = false) (string : s.inString = false)
    {ws l : Text} (nonempty : ws ≠ []) (blank : ∀ c ∈ ws, Ascii.isSpace c = true)
    (ends : ∀ c ∈ l.head?, Ascii.isSpace c = false) (o : Nat) :
    movesFrom s o (ws ++ l) = ⟨(Lexeme.blanks s (ws ++ l)).token o, ws ++ l, s, s⟩ ::
      movesFrom s (o + ws.length) l := by
  obtain ⟨c, t, rfl⟩ := List.exists_cons_of_ne_nil nonempty
  have space := blank c List.mem_cons_self
  have next := Lexeme.next_of_isSpace space comment string (t ++ l)
  have stops : l.takeWhile Ascii.isSpace = [] := by
    cases l with
    | nil => rfl
    | cons d l => rw [List.takeWhile_cons_of_neg (by simp [ends d rfl])]
  refine movesFrom_of_next rfl next ?_ o
  rw [Lexeme.blanks, ← List.cons_append, List.takeWhile_append_of_pos blank, stops,
    List.append_nil]

/-- A comment up to the end of the line. -/
theorem movesFrom_lineComment {s : State} (comment : s.inComment = false)
    (string : s.inString = false) {body : Text} (line : ∀ n, ¬ Lexeme.commentOpener n <+: body)
    (o : Nat) : movesFrom s o (Ascii.hash :: body) =
      [⟨(Lexeme.comment s body).token o, Ascii.hash :: body, s, s⟩] := by
  have none := Lexeme.commentLevel?_eq_none line
  have next : Lexeme.next s Ascii.hash body = Lexeme.comment s body := by
    simp [Lexeme.next, comment, string]
  have length : (Lexeme.comment s body).length = (Ascii.hash :: body).length := by
    simp [Lexeme.comment, none]
  have after : (Lexeme.comment s body).after = s := by simp [Lexeme.comment, none]
  have moves := movesFrom_of_next (List.append_nil _) next length o
  rw [List.append_nil] at moves
  rw [moves, after, movesFrom]

end Scan

end CMakeSense
