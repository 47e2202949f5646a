import CMakeSense.Proofs.Token.Blank
import CMakeSense.Proofs.Token.Resuming

/-! Where bracket comments end. Scanning can be taken up again at every token of a walk, so it is
enough to look at what follows the opener of a comment: the comment goes on to the first closer of
its level, on its own line or a later one, and there scanning is taken up in the state before the
comment (`Walk.CommentRuns`). A state has room for levels up to fifteen and counts a higher one as
fifteen, so the closer that ends a comment is the one of its opener only up to that level
(`Walk.comment_ends_at_closer`). -/

namespace CMakeSense

namespace Text

variable {p t : Text}

theorem indexOf?_eq_some_iff {i : Nat} :
    indexOf? p t = some i ↔ p <+: t.drop i ∧ ∀ j < i, ¬ p <+: t.drop j := by
  induction t generalizing i with
  | nil =>
    cases p with
    | nil =>
      cases i with
      | zero => simp [indexOf?]
      | succ i =>
        constructor
        · intro found
          cases found
        · rintro ⟨_, least⟩
          exact absurd List.nil_prefix (least 0 (Nat.succ_pos i))
    | cons a p => simp [indexOf?]
  | cons c t ih =>
    rw [indexOf?]
    split
    · next here =>
      have here := List.isPrefixOf_iff_prefix.mp here
      constructor
      · rintro ⟨⟩
        exact ⟨here, fun j hj => absurd hj (Nat.not_lt_zero j)⟩
      · rintro ⟨_, least⟩
        cases i with
        | zero => rfl
        | succ i => exact absurd here (least 0 (Nat.succ_pos i))
    · next elsewhere =>
      rw [List.isPrefixOf_iff_prefix] at elsewhere
      cases i with
      | zero => simp [elsewhere]
      | succ i =>
        simp only [Option.map_eq_some_iff, Nat.add_right_cancel_iff, exists_eq_right, ih,
          List.drop_succ_cons]
        refine and_congr_right fun _ => ⟨fun least j hj => ?_, fun least j hj => ?_⟩
        · cases j with
          | zero => exact elsewhere
          | succ j => exact least j (Nat.lt_of_succ_lt_succ hj)
        · exact least (j + 1) (Nat.succ_lt_succ hj)

theorem indexOf?_eq_none_iff : indexOf? p t = none ↔ ∀ j, ¬ p <+: t.drop j := by
  constructor
  · intro absent j
    induction j using Nat.strongRecOn with
    | ind j least =>
      intro here
      rw [indexOf?_eq_some_iff.mpr ⟨here, least⟩] at absent
      cases absent
  · intro nowhere
    cases found : indexOf? p t with
    | none => rfl
    | some i => exact absurd (indexOf?_eq_some_iff.mp found).1 (nowhere i)

end Text

theorem Lexeme.next_of_commentOpener {s : State} (outside : s.inComment = false)
    (string : s.inString = false) (n : Nat) (body : Text) :
    next s Ascii.hash (commentOpener n ++ body) =
      commentBody ({ s with inComment := true }.withLevel n)
        (Ascii.hash :: commentOpener n).length body := by
  have level : commentLevel? (commentOpener n ++ body) = some n :=
    commentLevel?_eq_some_iff.mpr (List.prefix_append ..)
  rw [next, if_neg (by simp [outside]), if_neg (by simp [string]), if_pos rfl, comment, level]
  have behind : (commentOpener n ++ body).drop (n + 2) = body := by
    rw [← length_commentOpener n, List.drop_left]
  simp only [behind, List.length_cons, length_commentOpener]

namespace Spot

def Before (a b : Spot) : Prop := a.line < b.line ∨ a.line = b.line ∧ a.column < b.column

/-- There is a byte at the spot. -/
def IsIn (lines : List Text) (spot : Spot) : Prop :=
  ∃ text, lines[spot.line]? = some text ∧ spot.column < text.length

/-- The pattern stands at the spot, all of it on one line. -/
def Shows (lines : List Text) (pattern : Text) (spot : Spot) : Prop :=
  ∃ text, lines[spot.line]? = some text ∧ pattern <+: text.drop spot.column

/-- The spot is the first one from another on where the pattern stands. -/
structure FirstFrom (lines : List Text) (pattern : Text) (start spot : Spot) : Prop where
  shows : spot.Shows lines pattern
  behind : ¬ spot.Before start
  least : ∀ other, Shows lines pattern other → ¬ other.Before start → ¬ other.Before spot

section Line
variable {lines : List Text} {pattern text : Text} {line column : Nat}
  (htext : lines[line]? = some text)
include htext

theorem firstFrom_of_indexOf? {i : Nat}
    (found : Text.indexOf? pattern (text.drop column) = some i) :
    FirstFrom lines pattern ⟨line, column⟩ ⟨line, column + i⟩ := by
  obtain ⟨here, least⟩ := Text.indexOf?_eq_some_iff.mp found
  rw [List.drop_drop] at here
  refine ⟨⟨text, htext, here⟩, ?_, ?_⟩
  · simp only [Before]
    omega
  · rintro ⟨line', column'⟩ ⟨text', htext', there⟩ behind before
    simp only [Before] at behind before htext' there
    obtain rfl : line' = line := by omega
    obtain rfl : text' = text := Option.some.inj (htext'.symm.trans htext)
    refine least (column' - column) (by omega) ?_
    rwa [List.drop_drop, Nat.add_sub_of_le (by omega)]

/-- A pattern that does not stand on the rest of a line stands on a later one or before it. -/
theorem not_before_next_of_shows (absent : Text.indexOf? pattern (text.drop column) = none)
    {spot : Spot} (shows_ : spot.Shows lines pattern) (behind : ¬ spot.Before ⟨line, column⟩) :
    ¬ spot.Before ⟨line + 1, 0⟩ := by
  obtain ⟨line', column'⟩ := spot
  obtain ⟨text', htext', there⟩ := shows_
  simp only [Before] at behind htext' there ⊢
  intro before
  obtain rfl : line' = line := by omega
  obtain rfl : text' = text := Option.some.inj (htext'.symm.trans htext)
  refine Text.indexOf?_eq_none_iff.mp absent (column' - column) ?_
  rwa [List.drop_drop, Nat.add_sub_of_le (by omega)]

theorem FirstFrom.of_next (absent : Text.indexOf? pattern (text.drop column) = none) {spot : Spot}
    (first : FirstFrom lines pattern ⟨line + 1, 0⟩ spot) :
    FirstFrom lines pattern ⟨line, column⟩ spot := by
  refine ⟨first.shows, ?_, fun other shows_ behind => ?_⟩
  · have := first.behind
    simp only [Before] at this ⊢
    omega
  · exact first.least other shows_ (not_before_next_of_shows htext absent shows_ behind)

end Line

end Spot

def Step.spot (step : Step) : Spot := ⟨step.line, step.token.start⟩

theorem Tiles.exists_mem {stop offset i : Nat} {tokens : List Token}
    (tiles : Tiles stop offset tokens) (from_ : offset ≤ i) (below : i < stop) :
    ∃ token ∈ tokens, token.start ≤ i ∧ i < token.stop := by
  induction tiles with
  | nil => omega
  | @cons token tokens nonempty within rest ih =>
    rcases Nat.lt_or_ge i token.stop with here | later
    · exact ⟨token, List.mem_cons_self, from_, here⟩
    · obtain ⟨other, member, covers⟩ := ih later
      exact ⟨other, List.mem_cons_of_mem _ member, covers⟩

namespace Walk

/-- No step stands before the byte from which the walk starts. -/
theorem not_before_of_mem_stepsAt {line column : Nat} {s : State} {rest : Text} {lines : List Text}
    {step : Step} (h : step ∈ stepsAt line s column rest lines) :
    ¬ step.spot.Before ⟨line, column⟩ := by
  simp only [Step.spot, Spot.Before]
  rcases List.mem_append.mp h with here | later
  · obtain ⟨move, member, rfl⟩ := List.mem_map.mp here
    have := Scan.le_start_of_mem_movesFrom member
    simp only [Step.ofMove]
    omega
  · have := (line_of_mem_stepsFrom later).1
    omega

theorem exists_covers_stepsFrom (first : Nat) (s : State) {lines : List Text} {k i : Nat}
    {text : Text} (htext : lines[k]? = some text) (inside : i < text.length) :
    ∃ step ∈ stepsFrom first s lines, step.Covers ⟨first + k, i⟩ := by
  induction lines generalizing first s k with
  | nil => cases htext
  | cons line lines ih =>
    cases k with
    | zero =>
      obtain rfl := Option.some.inj htext
      obtain ⟨token, member, covers⟩ := (Scan.tiles_tokens s line).exists_mem (Nat.zero_le i) inside
      obtain ⟨move, hmove, rfl⟩ := List.mem_map.mp member
      refine ⟨Step.ofMove first move, ?_, rfl, covers⟩
      exact List.mem_append_left _ (List.mem_map_of_mem hmove)
    | succ k =>
      obtain ⟨step, member, covers⟩ := ih (first + 1) (Scan.stateAfter s line) htext
      refine ⟨step, List.mem_append_right _ member, ?_⟩
      rwa [Nat.add_assoc, Nat.add_comm 1] at covers

/-- From a step of a walk on, every byte of the script belongs to a token. -/
theorem exists_covers_of_split {s : State} {lines : List Text} {before after : List Step}
    {step : Step} (split : stepsFrom 0 s lines = before ++ step :: after) {byte : Spot}
    (present : byte.IsIn lines) (behind : ¬ byte.Before step.spot) :
    ∃ other ∈ step :: after, other.Covers byte := by
  obtain ⟨k, text, hline, htext, hrest, steps⟩ := eq_stepsAt_of_split split
  obtain ⟨text', htext', inside⟩ := present
  simp only [Step.spot, Spot.Before] at behind
  rw [steps]
  rcases Nat.lt_or_ge step.line byte.line with later | here
  · obtain ⟨j, hj⟩ := Nat.exists_eq_add_of_lt later
    have found : (lines.drop (k + 1))[j]? = some text' := by
      rw [List.getElem?_drop, ← htext']
      congr 1
      omega
    obtain ⟨other, member, covers⟩ := exists_covers_stepsFrom (step.line + 1)
      (Scan.final step.before (Scan.movesFrom step.before step.token.start step.rest)) found inside
    refine ⟨other, List.mem_append_right _ member, ?_⟩
    rwa [show step.line + 1 + j = byte.line by omega] at covers
  · obtain rfl : text = text' := by
      rw [show byte.line = k by omega] at htext'
      exact Option.some.inj (htext.symm.trans htext')
    have tiles := Scan.tiles_movesFrom step.before step.token.start step.rest
    have stop : byte.column < step.token.start + step.rest.length := by
      rw [hrest, List.length_drop]
      omega
    obtain ⟨token, member, covers⟩ := tiles.exists_mem (by omega) stop
    obtain ⟨move, hmove, rfl⟩ := List.mem_map.mp member
    refine ⟨Step.ofMove step.line move, ?_, by simp only [Step.ofMove]; omega, covers⟩
    exact List.mem_append_left _ (List.mem_map_of_mem hmove)

/-- Comment tokens up to a spot, where scanning is taken up in a state. -/
def CommentTo (lines : List Text) (steps : List Step) (stop : Spot) (s : State) : Prop :=
  ∃ comments last text, (∀ step ∈ comments ++ [last], step.token.kind = .comment) ∧
    last.line = stop.line ∧ last.token.stop = stop.column ∧ last.after = s ∧
    lines[stop.line]? = some text ∧
    steps = comments ++ last ::
      stepsAt stop.line s stop.column (text.drop stop.column) (lines.drop (stop.line + 1))

/-- A comment ends where its closer stands first from a spot on, and scanning is taken up behind it.
Where the closer does not stand any more, the comment goes on to the end of the script. -/
inductive CommentRuns (lines : List Text) (closer : Text) (inner : Spot) (s : State)
    (steps : List Step) : Prop where
  | closed (spot : Spot) (first : Spot.FirstFrom lines closer inner spot)
      (comment : CommentTo lines steps ⟨spot.line, spot.column + closer.length⟩ s)
  | unclosed (nowhere : ∀ spot : Spot, spot.Shows lines closer → spot.Before inner)
      (comment : ∀ step ∈ steps, step.token.kind = .comment)

theorem CommentTo.last {lines : List Text} {text : Text} {line column : Nat} {step : Step}
    (kind : step.token.kind = .comment) (hline : step.line = line)
    (hstop : step.token.stop = column) (htext : lines[line]? = some text) :
    CommentTo lines
      (step :: stepsAt line step.after column (text.drop column) (lines.drop (line + 1)))
      ⟨line, column⟩ step.after :=
  ⟨[], step, text, List.forall_mem_singleton.mpr kind, hline, hstop, rfl, htext, rfl⟩

theorem CommentTo.cons {lines : List Text} {steps : List Step} {stop : Spot} {s : State}
    {step : Step} (kind : step.token.kind = .comment) (comment : CommentTo lines steps stop s) :
    CommentTo lines (step :: steps) stop s := by
  obtain ⟨comments, last, text, kinds, hline, hstop, hafter, htext, rfl⟩ := comment
  refine ⟨step :: comments, last, text, ?_, hline, hstop, hafter, htext, rfl⟩
  exact List.forall_mem_cons.mpr ⟨kind, kinds⟩

namespace CommentRuns

variable {lines : List Text} {closer : Text} {inner : Spot} {s : State} {steps : List Step}

theorem cons {step : Step} (kind : step.token.kind = .comment)
    (runs : CommentRuns lines closer inner s steps) :
    CommentRuns lines closer inner s (step :: steps) := by
  cases runs with
  | closed spot first comment => exact .closed spot first (comment.cons kind)
  | unclosed nowhere comment =>
    exact .unclosed nowhere (List.forall_mem_cons.mpr ⟨kind, comment⟩)

theorem of_next {text : Text} {line column : Nat} (htext : lines[line]? = some text)
    (absent : Text.indexOf? closer (text.drop column) = none)
    (runs : CommentRuns lines closer ⟨line + 1, 0⟩ s steps) :
    CommentRuns lines closer ⟨line, column⟩ s steps := by
  cases runs with
  | closed spot first comment => exact .closed spot (first.of_next htext absent) comment
  | unclosed nowhere comment =>
    refine .unclosed (fun spot shows_ => ?_) comment
    by_contra behind
    exact Spot.not_before_next_of_shows htext absent shows_ behind (nowhere spot shows_)

end CommentRuns

section Comment
variable {u : State} {lines : List Text}

/-- The first token of a comment, on the line where it begins or goes on: `head` is what the comment
has there before the closer can begin. -/
theorem commentRuns_stepsAt {s : State} {line column : Nat} {c : UInt8} {t text head body : Text}
    (htext : lines[line]? = some text) (rest : text.drop column = c :: t)
    (parts : c :: t = head ++ body)
    (next : Lexeme.next s c t = Lexeme.commentBody u head.length body)
    (later : CommentRuns lines (Lexeme.commentCloser u.level) ⟨line + 1, 0⟩
      { u with inComment := false, level := 0 }
      (stepsFrom (line + 1) u (lines.drop (line + 1)))) :
    CommentRuns lines (Lexeme.commentCloser u.level) ⟨line, column + head.length⟩
      { u with inComment := false, level := 0 }
      (stepsAt line s column (c :: t) (lines.drop (line + 1))) := by
  have hbody : text.drop (column + head.length) = body := by
    rw [← List.drop_drop, rest, parts, List.drop_left]
  cases found : Text.indexOf? (Lexeme.commentCloser u.level) body with
  | some i =>
    have lexeme : Lexeme.commentBody u head.length body =
        { kind := .comment, length := head.length + i + (Lexeme.commentCloser u.level).length,
          after := { u with inComment := false, level := 0 } } := by
      simp only [Lexeme.commentBody, found]
      rfl
    refine .closed ⟨line, column + head.length + i⟩ ?_ ?_
    · exact Spot.firstFrom_of_indexOf? htext (hbody ▸ found)
    · rw [stepsAt_cons (next.trans lexeme), ← rest, List.drop_drop, ← Nat.add_assoc,
        ← Nat.add_assoc]
      refine .last rfl rfl ?_ htext
      simp only [Step.ofMove, Lexeme.token, Nat.add_assoc]
  | none =>
    have lexeme : Lexeme.commentBody u head.length body =
        { kind := .comment, length := (c :: t).length, after := u } := by
      simp only [Lexeme.commentBody, found, parts, List.length_append]
    rw [stepsAt_cons (next.trans lexeme), List.drop_length, stepsAt_nil]
    exact (later.of_next htext (hbody ▸ found)).cons rfl

/-- A comment that a line begins with ends at the first closer of its level, if there is one. -/
theorem commentRuns_stepsFrom (inside : u.inComment = true) (line : Nat) :
    CommentRuns lines (Lexeme.commentCloser u.level) ⟨line, 0⟩
      { u with inComment := false, level := 0 } (stepsFrom line u (lines.drop line)) := by
  -- the induction is on the lines left
  generalize hrest : lines.drop line = rest
  induction rest generalizing line with
  | nil =>
    have short : lines.length ≤ line := List.drop_eq_nil_iff.mp hrest
    refine .unclosed ?_ (List.forall_mem_nil _)
    rintro ⟨line', column'⟩ ⟨text, htext, _⟩
    obtain ⟨present, _⟩ := List.getElem?_eq_some_iff.mp htext
    exact .inl (by simp only at present ⊢; omega)
  | cons text rest ih =>
    have htext : lines[line]? = some text := by
      rw [← List.head?_drop, hrest]
      rfl
    have hrest' : lines.drop (line + 1) = rest := by rw [← List.tail_drop, hrest]; rfl
    have later := ih (line + 1) hrest'
    rw [stepsFrom_cons, ← hrest']
    rw [← hrest'] at later
    cases text with
    | nil =>
      rw [stepsAt_nil]
      have absent : Text.indexOf? (Lexeme.commentCloser u.level) (([] : Text).drop 0) = none := by
        simp [Text.indexOf?, Lexeme.commentCloser]
      exact later.of_next htext absent
    | cons c t =>
      have next : Lexeme.next u c t = Lexeme.commentBody u ([] : Text).length (c :: t) := by
        simp only [Lexeme.next, inside]
        rfl
      exact commentRuns_stepsAt htext rfl rfl next later

end Comment

/-- Comment tokens cover the bytes between two spots. -/
def CommentCovers (lines : List Text) (steps : List Step) (start stop : Spot) : Prop :=
  ∀ byte : Spot, byte.IsIn lines → ¬ byte.Before start → byte.Before stop →
    ∃ step ∈ steps, step.token.kind = .comment ∧ step.Covers byte

/-- The comment that `opening` begins ends at its closer: where the closer stands first from a spot
on, the comment covers everything up to there and the walk is taken up in the state before the
comment, and where the closer does not stand any more, the comment covers all the rest. -/
inductive CommentEnds (lines : List Text) (closer : Text) (inner : Spot) (opening : Step)
    (after : List Step) : Prop where
  | closed (spot : Spot) (first : Spot.FirstFrom lines closer inner spot)
      (covered : CommentCovers lines (opening :: after) opening.spot
        ⟨spot.line, spot.column + closer.length⟩)
      (resumed : CommentTo lines (opening :: after) ⟨spot.line, spot.column + closer.length⟩
        { opening.before with level := 0 })
  | unclosed (nowhere : ∀ spot : Spot, spot.Shows lines closer → spot.Before inner)
      (covered : CommentCovers lines (opening :: after) opening.spot ⟨lines.length, 0⟩)
      (comment : ∀ step ∈ opening :: after, step.token.kind = .comment)

section Opening
variable {s : State} {lines : List Text} {before after : List Step} {opening : Step}
  (split : stepsFrom 0 s lines = before ++ opening :: after)
include split

theorem CommentRuns.ends {closer : Text} {inner : Spot}
    (runs : CommentRuns lines closer inner { opening.before with level := 0 } (opening :: after)) :
    CommentEnds lines closer inner opening after := by
  cases runs with
  | closed spot first comment =>
    refine .closed spot first (fun byte present behind before => ?_) comment
    obtain ⟨step, member, covers⟩ := exists_covers_of_split split present behind
    refine ⟨step, member, ?_, covers⟩
    obtain ⟨comments, last, text, kinds, _, _, _, _, steps⟩ := comment
    rw [steps, List.append_cons] at member
    rcases List.mem_append.mp member with early | late
    · exact kinds step early
    · -- a step behind the comment covers nothing before its end
      have := not_before_of_mem_stepsAt late
      obtain ⟨hline, hstart, _⟩ := covers
      simp only [Step.spot, Spot.Before] at this before
      omega
  | unclosed nowhere comment =>
    refine .unclosed nowhere (fun byte present behind _ => ?_) comment
    obtain ⟨step, member, covers⟩ := exists_covers_of_split split present behind
    exact ⟨step, member, comment step member, covers⟩

theorem commentRuns_of_opener {n : Nat} {body : Text} (comment : opening.before.inComment = false)
    (string : opening.before.inString = false)
    (opens : opening.rest = Ascii.hash :: (Lexeme.commentOpener n ++ body)) :
    CommentRuns lines (Lexeme.commentCloser (min n 15))
      ⟨opening.line, opening.token.start + (n + 3)⟩ { opening.before with level := 0 }
      (opening :: after) := by
  obtain ⟨k, text, hline, htext, hrest, steps⟩ := eq_stepsAt_of_split split
  obtain rfl : opening.line = k := by omega
  rw [steps, opens]
  have next := Lexeme.next_of_commentOpener comment string n body
  have runs := commentRuns_stepsAt htext (hrest.symm.trans opens) rfl next
    (commentRuns_stepsFrom rfl _)
  rw [List.length_cons, Lexeme.length_commentOpener] at runs
  have outside : { opening.before with inComment := false, level := 0 } =
      { opening.before with level := 0 } := by
    simp only [comment]
  rw [← outside]
  exact runs

/-- A bracket comment ends at the first closer with as many equals signs as its opener, up to
fifteen of them. An opener with more is closed by fifteen. -/
theorem comment_ends_at_closer {n : Nat} {body : Text} (comment : opening.before.inComment = false)
    (string : opening.before.inString = false)
    (opens : opening.rest = Ascii.hash :: (Lexeme.commentOpener n ++ body)) :
    (n ≤ 15 → CommentEnds lines (Lexeme.commentCloser n)
        ⟨opening.line, opening.token.start + (n + 3)⟩ opening after) ∧
      (15 < n → CommentEnds lines (Lexeme.commentCloser 15)
        ⟨opening.line, opening.token.start + (n + 3)⟩ opening after) := by
  have runs := commentRuns_of_opener split comment string opens
  constructor
  · intro fits
    rw [Nat.min_eq_left fits] at runs
    exact runs.ends split
  · intro exceeds
    rw [Nat.min_eq_right (Nat.le_of_lt exceeds)] at runs
    exact runs.ends split

end Opening

theorem comment_ends_at_closer_over_two_lines :
    let lines := [utf8 "set(A #[=[ x", utf8 "]] y ]=] B)"]
    ∃ before opening after, stepsFrom 0 .start lines = before ++ opening :: after ∧
      opening.rest = Ascii.hash :: (Lexeme.commentOpener 1 ++ utf8 " x") ∧
      CommentEnds lines (Lexeme.commentCloser 1) ⟨opening.line, opening.token.start + 4⟩
        opening after := by
  intro lines
  obtain ⟨opening, member, comment, string, opens⟩ : ∃ step ∈ stepsFrom 0 .start lines,
      step.before.inComment = false ∧ step.before.inString = false ∧
        step.rest = Ascii.hash :: (Lexeme.commentOpener 1 ++ utf8 " x") := by decide +kernel
  obtain ⟨before, after, split⟩ := List.append_of_mem member
  have ends := (comment_ends_at_closer split comment string opens).1 (by decide)
  exact ⟨before, opening, after, split, opens, ends⟩

theorem comment_not_ended_by_sixteen_signs :
    ¬ ∀ (s : State) (lines : List Text) (before after : List Step) (opening : Step) (n : Nat)
        (body : Text), s.inComment = false → s.inString = false →
      stepsFrom 0 s lines = before ++ opening :: after →
      opening.before.inComment = false → opening.before.inString = false →
      opening.rest = Ascii.hash :: (Lexeme.commentOpener n ++ body) →
      CommentEnds lines (Lexeme.commentCloser n) ⟨opening.line, opening.token.start + (n + 3)⟩
        opening after := by
  intro claimed
  let line := utf8 "#[================[ ]================] set(A)"
  let body := utf8 " ]================] set(A)"
  obtain ⟨opening, whole⟩ : ∃ opening, stepsFrom 0 .start [line] = [opening] :=
    List.length_eq_one_iff.mp (by decide +kernel)
  have facts : ∀ step ∈ stepsFrom 0 .start [line], step.line = 0 ∧ step.token.start = 0 ∧
      step.token.stop = 45 ∧ step.before.inComment = false ∧ step.before.inString = false ∧
      step.rest = Ascii.hash :: (Lexeme.commentOpener 16 ++ body) := by decide +kernel
  obtain ⟨hline, start, stop, comment, string, opens⟩ :=
    facts opening (whole ▸ List.mem_singleton_self opening)
  cases claimed .start [line] [] [] opening 16 _ rfl rfl whole comment string opens with
  | closed spot first covered resumed =>
    obtain ⟨comments, last, _, _, endLine, endStop, _, _, steps⟩ := resumed
    obtain ⟨text, htext, here⟩ := first.shows
    obtain rfl : last = opening := by
      have member : last ∈ [opening] := steps ▸ List.mem_append_right _ List.mem_cons_self
      exact List.mem_singleton.mp member
    have top : spot.line = 0 := endLine.symm.trans hline
    have column : spot.column + 18 = 45 := endStop.symm.trans stop
    rw [top] at htext
    rw [Nat.add_right_cancel (m := 18) column, ← Option.some.inj htext] at here
    exact absurd here (by decide +kernel)
  | unclosed nowhere covered comment =>
    have before := nowhere ⟨0, 20⟩ ⟨line, rfl, by decide +kernel⟩
    simp only [Spot.Before] at before
    omega

end Walk

end CMakeSense
