import CMakeSense.Proofs.Query.Request
import CMakeSense.Proofs.Script.Shift
import CMakeSense.Proofs.Token.Recasing
import CMakeSense.Proofs.Token.Resuming

/-! Typing a word behind a token that raises a request. The word merges with whatever follows the
cursor, and it cuts the run of blanks that the cursor stands in. Nothing to the left of the cursor
changes, though: the tokens before the one that raises the request end where they ended, since that
one ends words (`Lexeme.endsWord_of_opensList`), and it is scanned as before up to the cursor
(`Lexeme.next_append_of_opensList`). So the word is the token behind it
(`Cursor.Raised.exists_moves_typed`) wherever the cursor stands in the word, and the request goes
back to the same token. -/

namespace CMakeSense

namespace Lexeme

variable {s : State} {c : UInt8} {t : Text}

/-- A list of candidates opens after a parenthesis, blanks, or the opener of a variable reference,
outside of comments and strings. -/
theorem begins_of_opensList (opens : Cursor.opensList (next s c t).kind = true) :
    s.inComment = false ∧ s.inString = false ∧
      (c = Ascii.openParen ∨ Ascii.isSpace c = true ∨ (opener? (c :: t)).isSome = true) := by
  unfold next at opens
  split at opens
  · rw [commentBody_kind] at opens
    cases opens
  next comment =>
  split at opens
  · cases opens
  next string =>
  refine ⟨Bool.eq_false_iff.mpr comment, Bool.eq_false_iff.mpr string, ?_⟩
  split at opens
  · rw [comment_kind] at opens
    cases opens
  split at opens
  · next space => exact .inr (.inl space)
  split at opens
  · cases opens
  split at opens
  · next paren => exact .inl paren
  split at opens
  · rw [closeParen_kind] at opens
    cases opens
  split at opens
  · cases opens
  split at opens
  · next found => exact .inr (.inr (by rw [found]; rfl))
  · have isWord := isWord_word s (c :: t)
    cases kind : (word s (c :: t)).kind <;> simp_all [Cursor.opensList, TokenKind.isWord]

theorem endsWord_of_opensList (opens : Cursor.opensList (next s c t).kind = true) :
    EndsWord (c :: t) := by
  obtain ⟨_, _, begins⟩ := begins_of_opensList opens
  refine ⟨wordLength_eq_zero_iff.mpr ?_, ?_⟩
  · rcases begins with rfl | space | found
    · exact .inr (.inl rfl)
    · exact .inl space
    · exact .inr (.inr found)
  · rintro ⟨⟩
    rcases begins with paren | space | found
    · cases paren
    · cases space
    · rw [opener?_eq_none (by decide)] at found
      cases found

/-- No comment or string is open behind a token after which a list of candidates opens. -/
theorem after_of_opensList (opens : Cursor.opensList (next s c t).kind = true) :
    (next s c t).after.inComment = false ∧ (next s c t).after.inString = false := by
  obtain ⟨comment, string, rfl | space | found⟩ := begins_of_opensList opens
  · rw [next_openParen comment string, inComment_openParen, inString_openParen]
    exact ⟨comment, string⟩
  · rw [next_of_isSpace space comment string]
    exact ⟨comment, string⟩
  · obtain ⟨_, found⟩ := Option.isSome_iff_exists.mp found
    rw [next_of_opener comment string found]
    exact ⟨comment, string⟩

/-- The token before a cursor that stands at its end or in a run of blanks, when something that is
no blank is typed there. -/
theorem next_append_of_opensList {p r x : Text}
    (opens : Cursor.opensList (next s c (p ++ r)).kind = true)
    (reaches : p.length + 1 ≤ (next s c (p ++ r)).length)
    (ends : (next s c (p ++ r)).kind = .whiteSpace ∨ (next s c (p ++ r)).length ≤ p.length + 1)
    (plain : ∀ d ∈ x.head?, Ascii.isSpace d = false) :
    next s c (p ++ x) = { next s c (p ++ r) with length := p.length + 1 } := by
  obtain ⟨comment, string, rfl | space | found⟩ := begins_of_opensList opens
  · rw [next_openParen comment string, openParen_length] at reaches
    rw [next_openParen comment string, next_openParen comment string,
      show p.length + 1 = (openParen s).length by rw [openParen_length]; omega]
  · rw [next_of_isSpace space comment string] at reaches
    rw [next_of_isSpace space comment string, next_of_isSpace space comment string]
    -- The cursor stands in the blanks, so all that is left of it is blank.
    have run : c :: p <+: (c :: (p ++ r)).takeWhile Ascii.isSpace :=
      List.prefix_of_prefix_length_le (List.prefix_append (c :: p) r) (List.takeWhile_prefix _)
        reaches
    have blank : ∀ d ∈ c :: p, Ascii.isSpace d = true := fun d member =>
      List.all_eq_true.mp List.all_takeWhile d (run.subset member)
    have stops : x.takeWhile Ascii.isSpace = [] := by
      cases x with
      | nil => rfl
      | cons d x => exact List.takeWhile_cons_of_neg (by simp [plain d rfl])
    simp only [blanks]
    rw [← List.cons_append, List.takeWhile_append_of_pos blank, stops, List.append_nil,
      List.length_cons]
  · obtain ⟨⟨kind, n⟩, found⟩ := Option.isSome_iff_exists.mp found
    rw [next_of_opener comment string found] at reaches ends
    have length : n = p.length + 1 := by
      rcases ends with blank | short
      · exact absurd blank (opener?_kind found).2.1
      · exact Nat.le_antisymm short reaches
    have same : opener? (c :: (p ++ x)) = some (kind, n) :=
      opener?_append_of_le (u := c :: p) found (Nat.le_of_eq length) x
    rw [next_of_opener comment string found, next_of_opener comment string same, length]

end Lexeme

namespace Scan

/-- A plain word inside an argument list goes on with the word that follows it. -/
theorem movesFrom_plainWord {s : State} {w : Text} (word : Lexeme.PlainWord w)
    (comment : s.inComment = false) (string : s.inString = false)
    (inside : s.insideParens = true) (o : Nat) (r : Text) :
    ∃ move later, movesFrom s o (w ++ r) = move :: later ∧ move.token.kind = .identifier ∧
      move.token.start = o ∧ move.before = s ∧
      ∀ other ∈ later, o + w.length ≤ other.token.start := by
  obtain ⟨c, t, rfl⟩ := List.exists_cons_of_ne_nil word.nonempty
  have next := Lexeme.next_of_isPlain (word.plain c List.mem_cons_self) comment string (t ++ r)
  rw [List.cons_append, movesFrom]
  refine ⟨_, _, rfl, ?_, rfl, rfl, fun other member => ?_⟩
  · simp [Lexeme.token, next, Lexeme.word, inside]
  · have behind := le_start_of_mem_movesFrom member
    rw [next, Lexeme.word_length_eq, ← List.cons_append, Lexeme.wordLength_append word.plain]
      at behind
    omega

theorem takeWhile_of_split {s : State} {text : Text} {front behind : List Move} {move : Move}
    {column : Int} (split : moves s text = front ++ move :: behind)
    (left : move.token.start < column) (right : ∀ other ∈ behind, column ≤ other.token.start) :
    ((moves s text).takeWhile fun move => move.token.start < column) = front ++ [move] := by
  have order := pairwise_movesFrom s 0 text
  rw [← moves_eq, split, List.pairwise_append] at order
  have before : ∀ other ∈ front, decide ((other.token.start : Int) < column) = true := by
    intro other member
    have := order.2.2 other member move List.mem_cons_self
    exact decide_eq_true (by omega)
  have none : (behind.takeWhile fun move => move.token.start < column) = [] := by
    cases behind with
    | nil => rfl
    | cons next behind =>
      have := right next List.mem_cons_self
      exact List.takeWhile_cons_of_neg (by simpa using this)
  rw [split, List.takeWhile_append_of_pos before, List.takeWhile_cons, if_pos (decide_eq_true left),
    none]

end Scan

/-- What is seen from the place of a token: the lines above, the tokens before it, and itself. -/
theorem Walk.upTo_of_moves {lines : List Text} {n : Nat} {text : Text} {front behind : List Move}
    {move : Move} (line : lines[n]? = some text)
    (split : Scan.moves (stateAt lines n) text = front ++ move :: behind) :
    upTo lines n move.token.start =
      steps (lines.take n) ++ front.map (Step.ofMove n) ++ [Step.ofMove n move] := by
  obtain ⟨bound, get⟩ := List.getElem?_eq_some_iff.mp line
  have parts := steps_eq_append lines (Nat.le_of_lt bound)
  rw [List.drop_eq_getElem_cons bound, get, stepsFrom, split, List.map_append, List.map_cons,
    List.append_assoc, List.cons_append, ← List.append_assoc] at parts
  exact upTo_of_split parts

namespace Statement.Reading

variable {a b : Step} {reading : Reading} {head : Head} {args : Arguments}

/-- A token that leaves reading within an argument list shows the same arguments as another one that
differs from it in its bytes only. -/
theorem after_eq_within (line : b.line = a.line) (kind : b.token.kind = a.token.kind)
    (trigger : b.token.trigger = a.token.trigger) (before : b.before = a.before)
    (h : reading.after a = .within head args) :
    ∃ args', reading.after b = .within head args' ∧ args'.done = args.done := by
  cases reading with
  | between head? =>
    refine ⟨args, ?_, rfl⟩
    simp only [after, afterOutside, kind, trigger, line] at h ⊢
    split at h
    · cases h
    · cases h
    · exact h
    · cases h
    · cases h
    · cases h
  | within head' args' =>
    have stop : b.closesList = a.closesList := by rw [Step.closesList, trigger, Step.closesList]
    have entered : args'.enterLine b = args'.enterLine a := by
      rw [Arguments.enterLine, Arguments.enterLine, line, before]
    simp only [after, stop] at h ⊢
    split at h
    · cases h
    · next stays =>
      cases h
      refine ⟨_, if_neg stays, ?_⟩
      simp only [Arguments.add, entered, kind, trigger, before]
      split
      · rfl
      split
      · rfl
      split
      · rfl
      · rw [Arguments.done_append, Arguments.done_append]

end Statement.Reading

namespace Cursor

open Statement

/-- The last token of line `n` that starts left of column `c` is `trigger`, which a list of
candidates opens after inside an argument list. The opener of a variable reference ends at the
cursor; the cursor may stand anywhere in a run of blanks. -/
structure Raised (lines : List Text) (n c : Nat) (text : Text) (trigger : Move) : Prop where
  line : lines[n]? = some text
  column : c ≤ text.length
  mem : trigger ∈ Scan.moves (Walk.stateAt lines n) text
  left : trigger.token.start < c
  last : ∀ move ∈ Scan.moves (Walk.stateAt lines n) text, move.token.start < c →
    move.token.start ≤ trigger.token.start
  opens : trigger.token.kind = .openParen ∨ trigger.token.kind = .whiteSpace ∨
    (trigger.token.kind = .variableStart ∨ trigger.token.kind = .variableStartEnv ∨
      trigger.token.kind = .variableStartCache) ∧ trigger.token.stop = c
  inside : trigger.after.insideParens = true

/-- The line with a word typed at a column. -/
def typed (text : Text) (c : Nat) (w : Text) : Text := text.take c ++ w ++ text.drop c

/-- The token, cut off at a column. -/
def cut (move : Move) (c : Nat) (rest : Text) : Move :=
  { move with token := { move.token with stop := c }, rest }

namespace Raised

variable {lines : List Text} {n c : Nat} {text : Text} {trigger : Move}
  (raised : Raised lines n c text trigger)
include raised

theorem opensList : Cursor.opensList trigger.token.kind = true := by
  rcases raised.opens with kind | kind | ⟨kind | kind | kind, _⟩ <;> rw [kind] <;> rfl

/-- The tokens of the line around the one that raises the request. -/
theorem exists_split : ∃ front behind,
    Scan.moves (Walk.stateAt lines n) text = front ++ trigger :: behind ∧
      ∀ move ∈ behind, c ≤ move.token.start := by
  obtain ⟨front, behind, split⟩ := List.append_of_mem raised.mem
  refine ⟨front, behind, split, fun move member => Nat.le_of_not_lt fun starts => ?_⟩
  have order := Scan.pairwise_movesFrom (Walk.stateAt lines n) 0 text
  rw [← Scan.moves_eq, split, List.pairwise_append, List.pairwise_cons] at order
  have after := order.2.1.1 move member
  have found : move ∈ Scan.moves (Walk.stateAt lines n) text := by
    rw [split]
    exact List.mem_append_right _ (List.mem_cons_of_mem _ member)
  have := raised.last move found starts
  omega

/-- The token that raises the request ends at the cursor or behind it. -/
theorem reaches : c ≤ trigger.token.stop := by
  obtain ⟨front, behind, split, right⟩ := raised.exists_split
  have rest := Scan.eq_movesFrom_behind split
  refine Nat.le_of_not_lt fun short => ?_
  -- Otherwise the next token would start where this one ends, left of the cursor.
  have bound := Nat.lt_of_lt_of_le short raised.column
  rw [List.drop_eq_getElem_cons bound, Scan.movesFrom] at rest
  have := right _ (rest ▸ List.mem_cons_self)
  simp only [Lexeme.token] at this
  omega

/-- The bytes around the cursor: those of the token that raises the request up to the cursor, and
what follows. -/
theorem exists_split_text : ∃ d p, text.take trigger.token.start ++ d :: p = text.take c ∧
    trigger.token.start + (p.length + 1) = c ∧ trigger.rest = d :: (p ++ text.drop c) ∧
    Lexeme.next trigger.before d (p ++ text.drop c) = (Step.ofMove n trigger).lexeme := by
  obtain ⟨_, _, split, _⟩ := raised.exists_split
  rw [Scan.moves_eq] at split
  obtain ⟨_, bytes, _⟩ := Scan.eq_movesFrom_of_split split
  obtain ⟨_, d, t, rest, lexeme⟩ := scanned_ofMove raised.line raised.mem
  have rest : trigger.rest = d :: t := rest
  obtain ⟨k, hk⟩ : ∃ k, c = trigger.token.start + (k + 1) := by
    have := raised.left
    exact ⟨c - trigger.token.start - 1, by omega⟩
  rw [rest, Nat.sub_zero] at bytes
  have parts : t = t.take k ++ text.drop c := by
    rw [hk, ← List.drop_drop, ← bytes, List.drop_succ_cons, List.take_append_drop]
  refine ⟨d, t.take k, ?_, ?_, parts ▸ rest, parts ▸ lexeme.symm⟩
  · rw [hk, List.take_add, ← bytes, List.take_succ_cons]
  · have length := congrArg List.length bytes
    have := raised.column
    rw [List.length_drop, List.length_cons] at length
    rw [List.length_take]
    omega

/-- The token that raises the request is scanned as before up to the cursor. -/
theorem next_typed {d : UInt8} {p w : Text} (word : Lexeme.PlainWord w)
    (column : trigger.token.start + (p.length + 1) = c)
    (lexeme : Lexeme.next trigger.before d (p ++ text.drop c) = (Step.ofMove n trigger).lexeme) :
    Lexeme.next trigger.before d (p ++ (w ++ text.drop c)) =
      { (Step.ofMove n trigger).lexeme with length := p.length + 1 } := by
  have reaches : c ≤ trigger.token.stop := raised.reaches
  have length : (Step.ofMove n trigger).lexeme.length = trigger.token.stop - trigger.token.start :=
    rfl
  rw [← lexeme]
  refine Lexeme.next_append_of_opensList ?_ ?_ ?_ ?_
  · rw [lexeme]
    exact raised.opensList
  · rw [lexeme, length]
    omega
  · rcases raised.opens with paren | blank | ⟨_, whole⟩
    · rw [Lexeme.next_eq_openParen ((congrArg Lexeme.kind lexeme).trans paren),
        Lexeme.openParen_length]
      exact .inr (Nat.le_add_left ..)
    · exact .inl ((congrArg Lexeme.kind lexeme).trans blank)
    · rw [lexeme, length]
      exact .inr (by omega)
  · obtain ⟨e, v, rfl⟩ := List.exists_cons_of_ne_nil word.nonempty
    rintro _ ⟨⟩
    exact (Lexeme.isPlain_iff.mp (word.plain e List.mem_cons_self)).1

/-- The word that is typed becomes the token behind the one that raises the request, which is cut
off at the cursor. -/
theorem exists_moves_typed {w : Text} (word : Lexeme.PlainWord w) :
    ∃ front behind front' move later rest,
      Scan.moves (Walk.stateAt lines n) text = front ++ trigger :: behind ∧
      (∀ other ∈ behind, c ≤ other.token.start) ∧
      Scan.moves (Walk.stateAt lines n) (typed text c w) =
        front' ++ cut trigger c rest :: move :: later ∧
      List.Forall₂ Move.Alike front front' ∧ move.token.kind = .identifier ∧
      move.token.start = c ∧ move.before = trigger.after ∧
      ∀ other ∈ later, c + w.length ≤ other.token.start := by
  obtain ⟨_, behind, split, right⟩ := raised.exists_split
  rw [Scan.moves_eq] at split
  obtain ⟨_, _, moves⟩ := Scan.eq_movesFrom_of_split split
  obtain ⟨d, p, left, column, rest, lexeme⟩ := raised.exists_split_text
  have next := raised.next_typed word column lexeme
  have opens := raised.opensList
  rw [← show _ = trigger.token.kind from congrArg Lexeme.kind lexeme] at opens
  have length : (text.take trigger.token.start).length = trigger.token.start := by
    have := raised.left
    have := raised.column
    rw [List.length_take]
    omega
  have text_eq : text.take trigger.token.start ++ d :: (p ++ text.drop c) = text := by
    rw [← List.cons_append, ← List.append_assoc, left, List.take_append_drop]
  have typed_eq : typed text c w =
      text.take trigger.token.start ++ d :: (p ++ (w ++ text.drop c)) := by
    rw [typed, ← left]
    simp
  -- The tokens before the one that raises the request end where they ended.
  have member := raised.mem
  rw [Scan.moves_eq, ← text_eq] at member
  obtain ⟨front, before, others⟩ := Scan.movesFrom_append_of_endsWord
    (Lexeme.endsWord_of_opensList opens) member (by rw [length, Nat.zero_add])
  have endsWord : Lexeme.EndsWord (d :: (p ++ (w ++ text.drop c))) :=
    Lexeme.endsWord_of_opensList (s := trigger.before) (by rw [next]; exact raised.opensList)
  obtain ⟨front', alike, before', _⟩ := others _ endsWord fun e first space => by
    cases first
    exact space
  rw [text_eq, length, Nat.zero_add, ← rest, ← moves, ← Scan.moves_eq] at before
  -- Behind it the word is scanned, whatever follows.
  obtain ⟨comment, string⟩ := Lexeme.after_of_opensList opens
  rw [lexeme] at comment string
  obtain ⟨move, later, scan, identifier, start, state, far⟩ :=
    Scan.movesFrom_plainWord word comment string raised.inside c (text.drop c)
  have bytes : d :: p ++ (w ++ text.drop c) = d :: (p ++ (w ++ text.drop c)) := rfl
  have cutOff := Scan.movesFrom_of_next bytes next rfl trigger.token.start
  refine ⟨front, behind, front', move, later, d :: (p ++ (w ++ text.drop c)), before, right, ?_,
    alike, identifier, start, state, far⟩
  rw [List.length_cons, column, scan, List.cons_append] at cutOff
  rw [length, Nat.zero_add, cutOff] at before'
  rw [Scan.moves_eq, typed_eq, before', cut, ← column]
  rfl

end Raised

variable {lines : List Text} {n : Nat} {text : Text} {front behind : List Move} {move : Move}

/-- The request for a cursor among the tokens of its line. -/
theorem request?_of_split {c : Nat} (line : lines[n]? = some text)
    (split : Scan.moves (Walk.stateAt lines n) text = front ++ move :: behind)
    (left : move.token.start < c) (right : ∀ other ∈ behind, c ≤ other.token.start) :
    request? lines ⟨n, c⟩ = requestBehind? n (move :: front.reverse) := by
  have inside : ¬((n : Int) < 0 || (c : Int) ≤ 0) = true := by
    simp only [Bool.or_eq_true, decide_eq_true_eq]
    omega
  have seen := Scan.takeWhile_of_split split (Int.ofNat_lt.mpr left) fun other member =>
    Int.ofNat_le.mpr (right other member)
  rw [request?, if_neg inside]
  simp only [Int.toNat_natCast, line, Option.bind_eq_bind, Option.bind_some, seen,
    List.reverse_append, List.reverse_singleton, List.singleton_append]

/-- What has been read at the place of a token. -/
theorem readingAt_of_split (line : lines[n]? = some text)
    (split : Scan.moves (Walk.stateAt lines n) text = front ++ move :: behind) :
    Script.readingAt lines n move.token.start =
      ((front.map (Step.ofMove n)).foldl Reading.after
        ((Walk.steps (lines.take n)).foldl Reading.after (.between none))).after
          (Step.ofMove n move) := by
  rw [Script.readingAt, Walk.upTo_of_moves line split, List.foldl_append, List.foldl_append]
  rfl

theorem around_place (line : lines[n]? = some text) (column : Int) :
    Context.around lines ⟨n, column⟩ = Context.atLine lines n column :=
  Context.around_eq_atLine (Position.lineIn?_of_lt (List.getElem?_eq_some_iff.mp line).1 column)

theorem requestBehind?_of_opensList (opens : opensList move.token.kind = true)
    (earlier : List Move) :
    requestBehind? n (move :: earlier) = some (requestFor n move.token) := by
  simp only [requestBehind?, if_pos opens]

/-- A word inside an argument list leaves the request to the token that it follows. -/
theorem requestBehind?_of_word {previous : Move} (identifier : move.token.kind = .identifier)
    (inside : move.before.insideParens = true) (opens : opensList previous.token.kind = true)
    (adjoins : previous.token.stop = move.token.start) (earlier : List Move) :
    requestBehind? n (move :: previous :: earlier) = some (requestFor n previous.token) := by
  have word : opensList move.token.kind = false ∧ move.token.kind.isWord = true := by
    rw [identifier]
    exact ⟨rfl, rfl⟩
  simp [requestBehind?, word, inside, opens, adjoins]

theorem take_typed (c : Nat) (w : Text) :
    (lines.set n (typed text c w)).take n = lines.take n :=
  List.take_set_of_le (Nat.le_refl n)

theorem stateAt_typed (c : Nat) (w : Text) :
    Walk.stateAt (lines.set n (typed text c w)) n = Walk.stateAt lines n := by
  rw [Walk.stateAt, take_typed, Walk.stateAt]

namespace Raised

variable {c : Nat} {trigger : Move} {w : Text} (raised : Raised lines n c text trigger)
include raised

/-- Inside of an argument list there are arguments to show at the place that the request names. -/
theorem exists_within : ∃ head args,
    Script.readingAt lines n trigger.token.start = .within head args := by
  have depth := Context.depth_atLine_step (Walk.ofMove_mem_steps raised.line raised.mem)
  have inside : 0 < trigger.after.depth.val := by simpa using raised.inside
  cases reading : Script.readingAt lines n trigger.token.start with
  | between head? =>
    have outside := (Context.atLine_of_between reading).2
    exact absurd (depth.symm.trans outside) (Nat.ne_of_gt inside)
  | within head args => exact ⟨head, args, rfl⟩

theorem getElem?_typed : (lines.set n (typed text c w))[n]? = some (typed text c w) :=
  List.getElem?_set_self (List.getElem?_eq_some_iff.mp raised.line).1

variable (word : Lexeme.PlainWord w)
include word

/-- The command around the place that the request names stays the same. -/
theorem around_typed :
    (Context.around (lines.set n (typed text c w)) ⟨n, trigger.token.start⟩).command =
      (Context.around lines ⟨n, trigger.token.start⟩).command ∧
    (Context.around (lines.set n (typed text c w)) ⟨n, trigger.token.start⟩).name =
      (Context.around lines ⟨n, trigger.token.start⟩).name ∧
    (Context.around (lines.set n (typed text c w)) ⟨n, trigger.token.start⟩).arguments? =
      (Context.around lines ⟨n, trigger.token.start⟩).arguments? := by
  obtain ⟨front, _, front', move, later, rest, split, _, split', alike, _⟩ :=
    raised.exists_moves_typed word
  have line' := raised.getElem?_typed (w := w)
  rw [← stateAt_typed c w] at split'
  obtain ⟨head, args, reading⟩ := raised.exists_within
  -- The tokens before the place are read alike, and its own token opens or goes on with the list.
  have shifted : List.Forall₂ (Step.Shifted 0) (front.map (Step.ofMove n))
      (front'.map (Step.ofMove n)) := by
    rw [List.forall₂_map_left_iff, List.forall₂_map_right_iff]
    exact alike.imp fun a b same => same.shifted n 0
  have same := foldl_after_shift shifted
    ((Walk.steps (lines.take n)).foldl Reading.after (.between none))
  rw [Reading.shift_zero, Reading.shift_zero] at same
  have read := readingAt_of_split raised.line split
  have read' := readingAt_of_split line' split'
  rw [take_typed, same] at read'
  obtain ⟨args', within, shown⟩ := Reading.after_eq_within (a := Step.ofMove n trigger)
    (b := Step.ofMove n (cut trigger c rest)) rfl rfl rfl rfl (read.symm.trans reading)
  obtain ⟨arguments, _, command, name⟩ := Context.atLine_of_within reading
  obtain ⟨arguments', _, command', name'⟩ := Context.atLine_of_within (read'.trans within)
  have place : (cut trigger c rest).token.start = trigger.token.start := rfl
  rw [place] at arguments' command' name'
  rw [around_place raised.line, around_place line', command, command', name, name', arguments,
    arguments', shown]
  exact ⟨rfl, rfl, rfl⟩

end Raised

/-- **Typing keeps the request.** While a plain word is typed behind a token that raises a request
inside an argument list, the request stays the one for that token wherever the cursor stands in the
word, and the command around the place that it names keeps its name and its arguments. -/
theorem typing_keeps_request {c : Nat} {trigger : Move} {w : Text}
    (raised : Raised lines n c text trigger) (word : Lexeme.PlainWord w) :
    ∃ request, request? lines ⟨n, c⟩ = some request ∧
      (∀ k, 1 ≤ k → k ≤ w.length →
        request? (lines.set n (typed text c w)) ⟨n, (c + k : Nat)⟩ = some request) ∧
      (Context.around (lines.set n (typed text c w)) request.position).command =
        (Context.around lines request.position).command ∧
      (Context.around (lines.set n (typed text c w)) request.position).name =
        (Context.around lines request.position).name ∧
      (Context.around (lines.set n (typed text c w)) request.position).arguments? =
        (Context.around lines request.position).arguments? := by
  obtain ⟨front, behind, front', move, later, rest, split, right, split', _, identifier, start,
    before, far⟩ := raised.exists_moves_typed word
  refine ⟨requestFor n trigger.token, ?_, fun k positive within => ?_, raised.around_typed word⟩
  · rw [request?_of_split raised.line split raised.left right,
      requestBehind?_of_opensList raised.opensList]
  · have splitWord : Scan.moves (Walk.stateAt (lines.set n (typed text c w)) n) (typed text c w) =
        (front' ++ [cut trigger c rest]) ++ move :: later := by
      rw [stateAt_typed, split', List.append_assoc]
      rfl
    have right' : ∀ other ∈ later, c + k ≤ other.token.start := fun other member =>
      Nat.le_trans (Nat.add_le_add_left within c) (far other member)
    have opens : opensList (cut trigger c rest).token.kind = true := raised.opensList
    rw [request?_of_split raised.getElem?_typed splitWord (by omega) right', List.reverse_append]
    exact requestBehind?_of_word identifier (before ▸ raised.inside) opens start.symm _

/-- In the middle of the blanks that a line of a call begins with, and behind an opener, before the
name that the word merges with. -/
theorem typing_keeps_request_in_blanks_and_reference :
    (∃ request, request? [utf8 "set(A", utf8 "  B)"] ⟨1, 1⟩ = some request ∧
      request? [utf8 "set(A", utf8 " CD B)"] ⟨1, 3⟩ = some request ∧
      (Context.around [utf8 "set(A", utf8 " CD B)"] request.position).arguments? =
        (Context.around [utf8 "set(A", utf8 "  B)"] request.position).arguments?) ∧
    ∃ request, request? [utf8 "f($ENV\x7bB\x7d)"] ⟨0, 7⟩ = some request ∧
      request? [utf8 "f($ENV\x7bCDB\x7d)"] ⟨0, 8⟩ = some request := by
  have word : Lexeme.PlainWord (utf8 "CD") := ⟨by decide +kernel, by decide +kernel⟩
  constructor
  · let lines := [utf8 "set(A", utf8 "  B)"]
    obtain ⟨trigger, mem, left, last, kind, inside⟩ :
        ∃ trigger ∈ Scan.moves (Walk.stateAt lines 1) (utf8 "  B)"), trigger.token.start < 1 ∧
          (∀ move ∈ Scan.moves (Walk.stateAt lines 1) (utf8 "  B)"), move.token.start < 1 →
            move.token.start ≤ trigger.token.start) ∧
          trigger.token.kind = .whiteSpace ∧ trigger.after.insideParens = true := by decide +kernel
    have raised : Raised lines 1 1 (utf8 "  B)") trigger :=
      ⟨rfl, by decide +kernel, mem, left, last, .inr (.inl kind), inside⟩
    obtain ⟨request, before, after, _, _, arguments⟩ := typing_keeps_request raised word
    have typed : typed (utf8 "  B)") 1 (utf8 "CD") = utf8 " CD B)" := by decide +kernel
    rw [typed] at after arguments
    exact ⟨request, before, after 2 (by decide) (by decide +kernel), arguments⟩
  · let lines := [utf8 "f($ENV\x7bB\x7d)"]
    obtain ⟨trigger, mem, left, last, kind, stop, inside⟩ :
        ∃ trigger ∈ Scan.moves (Walk.stateAt lines 0) (utf8 "f($ENV\x7bB\x7d)"),
          trigger.token.start < 7 ∧
          (∀ move ∈ Scan.moves (Walk.stateAt lines 0) (utf8 "f($ENV\x7bB\x7d)"),
            move.token.start < 7 → move.token.start ≤ trigger.token.start) ∧
          trigger.token.kind = .variableStartEnv ∧ trigger.token.stop = 7 ∧
          trigger.after.insideParens = true := by decide +kernel
    have raised : Raised lines 0 7 (utf8 "f($ENV\x7bB\x7d)") trigger :=
      ⟨rfl, by decide +kernel, mem, left, last, .inr (.inr ⟨.inr (.inl kind), stop⟩), inside⟩
    obtain ⟨request, before, after, _⟩ := typing_keeps_request raised word
    have typed : typed (utf8 "f($ENV\x7bB\x7d)") 7 (utf8 "CD") = utf8 "f($ENV\x7bCDB\x7d)" := by
      decide +kernel
    rw [typed] at after
    exact ⟨request, before, after 1 (by decide) (by decide +kernel)⟩

end Cursor

end CMakeSense
