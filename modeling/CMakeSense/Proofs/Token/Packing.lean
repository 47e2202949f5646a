import CMakeSense.Proofs.Token.Walk
import Mathlib.Algebra.Group.Nat.Defs
import Mathlib.Logic.Relation

/-! Packed states. A word holds the seven fields of a state side by side. What scanning changes it
changes by masks and shifts (`State.Word`), and each of these changes writes one field: its bits are
cleared and a number that fits is put in their place (`State.Field.put`), so the other fields keep
theirs. The record changes as the word does (`State.followsWord`), by one of the ways in which a
state can be updated (`State.Update`). Every token makes only such changes
(`Lexeme.next_updates`), and the words of the states along a walk are well formed
(`State.WellFormed`). -/

namespace CMakeSense

namespace State

/-- A field of the packed state. -/
inductive Field where
  | depth | command | awaits | string | comment | level | reserved
  deriving DecidableEq

namespace Field

def shift : Field → Nat
  | depth => 0
  | command => 8
  | awaits => 16
  | string => 17
  | comment => 18
  | level => 19
  | reserved => 23

def width : Field → Nat
  | depth | command => 8
  | awaits | string | comment => 1
  | level => 4
  | reserved => 9

/-- The largest number that the field holds. -/
def limit (field : Field) : Nat := 2 ^ field.width - 1

/-- The bits of the field. -/
def mask (field : Field) : UInt32 := field.limit.toUInt32 <<< field.shift.toUInt32

/-- The number in the field. -/
def value (field : Field) (word : UInt32) : Nat :=
  ((word &&& field.mask) >>> field.shift.toUInt32).toNat

/-- Puts a number into the field. A number that is too large counts as the largest that fits. -/
def put (field : Field) (word : UInt32) (n : Nat) : UInt32 :=
  (word &&& ~~~field.mask) ||| (min n field.limit).toUInt32 <<< field.shift.toUInt32

/-- Whether a bit belongs to the field. -/
def holds (field : Field) (i : Nat) : Bool :=
  field.shift ≤ i && i < field.shift + field.width

variable (field : Field) (word : UInt32) (n i : Nat)

theorem disjoint {field other : Field} (h : other ≠ field) :
    other.shift + other.width ≤ field.shift ∨ field.shift + field.width ≤ other.shift := by
  revert h
  cases field <;> cases other <;> decide

theorem fits : field.shift < 32 ∧ field.shift + field.width ≤ 32 := by
  cases field <;> decide

theorem limit_lt : field.limit < 2 ^ field.width :=
  Nat.sub_lt (Nat.two_pow_pos _) Nat.one_pos

theorem min_limit_lt : min n field.limit < 2 ^ field.width :=
  Nat.lt_of_le_of_lt (Nat.min_le_right ..) field.limit_lt

private theorem testBit_of_lt {n k i : Nat} (h : n < 2 ^ k) (past : k ≤ i) :
    n.testBit i = false :=
  Nat.testBit_lt_two_pow (Nat.lt_of_lt_of_le h (Nat.pow_le_pow_right Nat.two_pos past))

theorem toNat_shifted {n : Nat} (h : n < 2 ^ field.width) :
    (n.toUInt32 <<< field.shift.toUInt32).toNat = n <<< field.shift := by
  obtain ⟨small, within⟩ := field.fits
  have room : n <<< field.shift < 2 ^ 32 := by
    rw [Nat.shiftLeft_eq]
    calc n * 2 ^ field.shift < 2 ^ field.width * 2 ^ field.shift :=
          Nat.mul_lt_mul_of_pos_right h (Nat.two_pow_pos _)
      _ = 2 ^ (field.width + field.shift) := (Nat.pow_add ..).symm
      _ ≤ 2 ^ 32 := Nat.pow_le_pow_right Nat.two_pos (by omega)
  have low : n < 2 ^ 32 := Nat.lt_of_lt_of_le h (Nat.pow_le_pow_right Nat.two_pos (by omega))
  rw [UInt32.toNat_shiftLeft]
  simp only [Nat.toUInt32, UInt32.toNat_ofNat']
  rw [Nat.mod_eq_of_lt low, Nat.mod_eq_of_lt (Nat.lt_trans small (by decide)),
    Nat.mod_eq_of_lt small, Nat.mod_eq_of_lt room]

theorem testBit_shifted {n : Nat} (h : n < 2 ^ field.width) :
    (n <<< field.shift).testBit i = (field.holds i && n.testBit (i - field.shift)) := by
  rw [Nat.testBit_shiftLeft, holds]
  by_cases below : i < field.shift + field.width
  · simp [below]
  · by_cases above : field.shift ≤ i
    · simp [below, testBit_of_lt h (show field.width ≤ i - field.shift by omega)]
    · simp [above]

theorem testBit_mask : field.mask.toNat.testBit i = field.holds i := by
  rw [mask, toNat_shifted field field.limit_lt, testBit_shifted field i field.limit_lt, limit,
    Nat.testBit_two_pow_sub_one, Bool.and_eq_left_iff_imp, holds, Bool.and_eq_true,
    decide_eq_true_iff, decide_eq_true_iff, decide_eq_true_iff]
  omega

/-- Putting a number into a field writes the bits of the field and no others. -/
theorem testBit_put : (field.put word n).toNat.testBit i =
    if field.holds i then (min n field.limit).testBit (i - field.shift)
    else word.toNat.testBit i := by
  have low := field.min_limit_lt n
  -- The complement of the mask has 32 bits, and a word has none past them either.
  have cleared : (~~~field.mask).toNat.testBit i = (decide (i < 32) && !field.holds i) := by
    have complement : (~~~field.mask).toNat = UInt32.size - (field.mask.toNat + 1) := by
      rw [UInt32.toNat_not, Nat.sub_sub, Nat.add_comm 1]
    rw [complement, ← testBit_mask]
    exact Nat.testBit_two_pow_sub_succ field.mask.toNat_lt i
  rw [put, UInt32.toNat_or, UInt32.toNat_and, Nat.testBit_or, Nat.testBit_and, cleared,
    toNat_shifted field low, testBit_shifted field i low]
  cases field.holds i with
  | true => simp
  | false =>
    by_cases within : i < 32
    · simp [within]
    · simp [within, testBit_of_lt word.toNat_lt (Nat.le_of_not_lt within)]

theorem testBit_value : (field.value word).testBit i =
    (decide (i < field.width) && word.toNat.testBit (field.shift + i)) := by
  obtain ⟨small, _⟩ := field.fits
  have amount : field.shift.toUInt32.toNat % 32 = field.shift := by
    simp only [Nat.toUInt32, UInt32.toNat_ofNat']
    omega
  rw [value, UInt32.toNat_shiftRight, UInt32.toNat_and, amount, Nat.testBit_shiftRight,
    Nat.testBit_and, testBit_mask, holds, Bool.and_comm]
  simp

theorem value_eq : field.value word = word.toNat / 2 ^ field.shift % 2 ^ field.width := by
  refine Nat.eq_of_testBit_eq fun i => ?_
  rw [testBit_value, Nat.testBit_mod_two_pow, Nat.testBit_div_two_pow, Nat.add_comm i]

theorem value_put : field.value (field.put word n) = min n field.limit := by
  refine Nat.eq_of_testBit_eq fun i => ?_
  rw [testBit_value, testBit_put, holds]
  by_cases inside : i < field.width
  · simp [inside]
  · simp [inside, testBit_of_lt (field.min_limit_lt n) (Nat.le_of_not_lt inside)]

theorem value_put_of_ne {field other : Field} (h : other ≠ field) :
    other.value (field.put word n) = other.value word := by
  refine Nat.eq_of_testBit_eq fun i => ?_
  rw [testBit_value, testBit_value]
  by_cases inside : i < other.width
  · -- The fields lie side by side, so this bit is none of those that are written.
    have outside : field.holds (other.shift + i) = false := by
      have := disjoint h
      simp only [holds, Bool.and_eq_false_iff, decide_eq_false_iff_not]
      omega
    rw [testBit_put, outside]
    simp
  · simp [inside]

theorem exists_holds {i : Nat} (h : i < 32) : ∃ field : Field, field.holds i = true := by
  have covered : ∀ i : Fin 32, ∃ field ∈ [depth, command, awaits, string, comment, level, reserved],
      field.holds i = true := by decide
  obtain ⟨field, _, holds⟩ := covered ⟨i, h⟩
  exact ⟨field, holds⟩

theorem eq_of_value_eq {a b : UInt32} (h : ∀ field : Field, field.value a = field.value b) :
    a = b := by
  refine UInt32.toNat_inj.mp (Nat.eq_of_testBit_eq fun i => ?_)
  by_cases within : i < 32
  · obtain ⟨field, inside⟩ := exists_holds within
    simp only [holds, Bool.and_eq_true, decide_eq_true_eq] at inside
    have bit := congrArg (·.testBit (i - field.shift)) (h field)
    have low : i - field.shift < field.width := by omega
    simpa only [testBit_value, low, decide_true, Bool.true_and,
      Nat.add_sub_cancel' inside.1] using bit
  · have past := Nat.le_of_not_lt within
    rw [testBit_of_lt a.toNat_lt past, testBit_of_lt b.toNat_lt past]

end Field

/-! The updates of the word by masks and shifts, each of which puts some number into its field. -/

namespace Word

def depthMask : UInt32 := 0xff
def commandMask : UInt32 := (0xff : UInt32) <<< 8
def awaitParen : UInt32 := (1 : UInt32) <<< 16
def inString : UInt32 := (1 : UInt32) <<< 17
def inComment : UInt32 := (1 : UInt32) <<< 18
def levelMask : UInt32 := (0xf : UInt32) <<< 19

/-- Sets the depth, which is forced into the range of its field. -/
def withDepth (word : UInt32) (depth : Int) : UInt32 :=
  let depth := if depth < 0 then 0 else depth
  let depth := if 0xff < depth then 0xff else depth
  (word &&& ~~~depthMask) ||| UInt32.ofInt depth

/-- Sets the number of the last command, less the bits that do not fit. -/
def withCommand (word : UInt32) (id : Int) : UInt32 :=
  (word &&& ~~~commandMask) ||| (UInt32.ofInt id <<< 8 &&& commandMask)

/-- Sets or clears a flag. -/
def withFlag (word flag : UInt32) (on : Bool) : UInt32 :=
  if on then word ||| flag else word &&& ~~~flag

/-- Sets the comment level, which is at most the largest that fits. -/
def withCommentLevel (word : UInt32) (level : Int) : UInt32 :=
  let level := if 0xf < level then 0xf else level
  (word &&& ~~~levelMask) ||| UInt32.ofInt level <<< 19

variable (word : UInt32)

theorem ofInt_natCast (n : Nat) : UInt32.ofInt n = n.toUInt32 := by
  apply UInt32.toNat_inj.mp
  simp only [UInt32.ofInt, Nat.toUInt32, UInt32.toNat_ofNat']
  omega

theorem withDepth_eq_put (depth : Int) :
    withDepth word depth = Field.depth.put word depth.toNat := by
  have clamped : (let depth := if depth < 0 then 0 else depth
      if 0xff < depth then 0xff else depth) = (min depth.toNat 0xff : Nat) := by
    simp only
    split <;> split <;> omega
  rw [withDepth, Field.put]
  simp only at clamped ⊢
  rw [clamped, ofInt_natCast]
  exact congrArg _ UInt32.shiftLeft_zero.symm

theorem withCommand_eq_put (id : Int) :
    withCommand word id = Field.command.put word (id % 256).toNat := by
  have low : UInt32.ofInt id &&& 0xff = (min (id % 256).toNat 0xff).toUInt32 := by
    apply UInt32.toNat_inj.mp
    rw [UInt32.toNat_and]
    refine (Nat.and_two_pow_sub_one_eq_mod _ 8).trans ?_
    simp only [UInt32.ofInt, Nat.toUInt32, UInt32.toNat_ofNat']
    omega
  rw [withCommand, commandMask, ← UInt32.shiftLeft_and, low]
  rfl

/-- Setting or clearing a flag puts one or zero into its field. -/
theorem withFlag_eq_put {field : Field} (single : field.width = 1) (on : Bool) :
    withFlag word field.mask on = field.put word on.toNat := by
  have limit : field.limit = 1 := by rw [Field.limit, single]; rfl
  cases on with
  | false => simp [withFlag, Field.put, Nat.toUInt32]
  | true =>
    refine UInt32.toNat_inj.mp (Nat.eq_of_testBit_eq fun i => ?_)
    rw [Field.testBit_put, withFlag, if_pos rfl, UInt32.toNat_or, Nat.testBit_or,
      Field.testBit_mask, limit]
    cases inside : field.holds i with
    | false => simp
    | true =>
      have here : i - field.shift = 0 := by
        simp only [Field.holds, single, Bool.and_eq_true, decide_eq_true_eq] at inside
        omega
      simp [here]

theorem withCommentLevel_eq_put (level : Nat) :
    withCommentLevel word level = Field.level.put word level := by
  have clamped : (if 0xf < (level : Int) then 0xf else (level : Int)) = (min level 0xf : Nat) := by
    split <;> omega
  rw [withCommentLevel, Field.put]
  rw [clamped, ofInt_natCast]
  rfl

end Word

def number (s : State) : Field → Nat
  | .depth => s.depth
  | .command => s.commandCode
  | .awaits => s.awaitsParen.toNat
  | .string => s.inString.toNat
  | .comment => s.inComment.toNat
  | .level => s.level
  | .reserved => s.reserved

@[simp] theorem value_toWord (s : State) (field : Field) :
    field.value s.toWord = s.number field := by
  -- The word is a sum of the fields' numbers at their places; each is smaller than its room.
  have := s.depth.isLt
  have := s.commandCode.isLt
  have := s.level.isLt
  have := s.reserved.isLt
  have := s.awaitsParen.toNat_lt
  have := s.inString.toNat_lt
  have := s.inComment.toNat_lt
  rw [Field.value_eq, s.toNat_toWord]
  cases field <;> simp only [Field.shift, Field.width, number] <;> omega

/-- The ways in which scanning changes a state, each with the field that is written and the number
that is to go into it. -/
inductive Update (s : State) : Field → Nat → State → Prop where
  | depth (n : Nat) : Update s .depth n (s.withDepth n)
  | command (command : Option Command) :
      Update s .command ((command.map Command.code).getD 0) (s.withCommand command)
  | awaits (b : Bool) : Update s .awaits b.toNat { s with awaitsParen := b }
  | string (b : Bool) : Update s .string b.toNat { s with inString := b }
  | comment (b : Bool) : Update s .comment b.toNat { s with inComment := b }
  | level (n : Nat) : Update s .level n (s.withLevel n)

/-- Some updates lead from one state to another. -/
def Updates : State → State → Prop :=
  Relation.ReflTransGen fun s t => ∃ field n, Update s field n t

namespace Update

variable {field : Field} {n : Nat} {s t : State}

theorem updates (h : Update s field n t) : Updates s t := .single ⟨field, n, h⟩

theorem number_self (h : Update s field n t) : t.number field = min n field.limit := by
  cases h with
  | depth => rfl
  | command command =>
    cases command with
    | none => rfl
    | some command =>
      have := command.code_lt
      simp only [number, withCommand, Option.map_some, Option.getD_some, Field.limit, Field.width]
      omega
  | awaits b => cases b <;> rfl
  | string b => cases b <;> rfl
  | comment b => cases b <;> rfl
  | level => rfl

theorem number_of_ne (h : Update s field n t) {other : Field} (ne : other ≠ field) :
    t.number other = s.number other := by
  cases h <;> cases other <;> trivial

/-- An update of a state puts its number into the field of the word. -/
theorem toWord_eq (h : Update s field n t) : t.toWord = field.put s.toWord n := by
  refine Field.eq_of_value_eq fun other => ?_
  rw [value_toWord]
  by_cases same : other = field
  · rw [same, Field.value_put, h.number_self]
  · rw [Field.value_put_of_ne _ _ same, value_toWord, h.number_of_ne same]

end Update

/-- Updating a state updates its word. -/
structure FollowsWord (s : State) : Prop where
  depth : ∀ depth : Int, (s.withDepth depth.toNat).toWord = Word.withDepth s.toWord depth
  command : ∀ command : Option Command, (s.withCommand command).toWord =
    Word.withCommand s.toWord ((command.map Command.code).getD 0 : Nat)
  awaits : ∀ on, { s with awaitsParen := on }.toWord = Word.withFlag s.toWord Word.awaitParen on
  string : ∀ on, { s with inString := on }.toWord = Word.withFlag s.toWord Word.inString on
  comment : ∀ on, { s with inComment := on }.toWord = Word.withFlag s.toWord Word.inComment on
  level : ∀ level : Nat, (s.withLevel level).toWord = Word.withCommentLevel s.toWord level

theorem followsWord (s : State) : s.FollowsWord where
  depth depth := (Update.depth _).toWord_eq.trans (Word.withDepth_eq_put ..).symm
  command command := by
    have fits : (command.map Command.code).getD 0 < 256 := by
      cases command with
      | none => exact Nat.succ_pos 255
      | some command => exact command.code_lt
    have whole : ((command.map Command.code).getD 0 : Int) % 256 =
        (command.map Command.code).getD 0 :=
      Int.emod_eq_of_lt (Int.natCast_nonneg _) (Int.ofNat_lt.mpr fits)
    rw [(Update.command command).toWord_eq, Word.withCommand_eq_put, whole, Int.toNat_natCast]
  awaits on := (Update.awaits on).toWord_eq.trans (Word.withFlag_eq_put _ rfl on).symm
  string on := (Update.string on).toWord_eq.trans (Word.withFlag_eq_put _ rfl on).symm
  comment on := (Update.comment on).toWord_eq.trans (Word.withFlag_eq_put _ rfl on).symm
  level level := (Update.level level).toWord_eq.trans (Word.withCommentLevel_eq_put ..).symm

/-- What a packed state looks like that scanning can reach. -/
structure WellFormed (word : UInt32) : Prop where
  reserved : Field.reserved.value word = 0
  command : Field.command.value word = 0 ∨
    ∃ command : Command, Field.command.value word = command.code
  awaits : Field.awaits.value word = 1 → Field.depth.value word = 0
  apart : ¬(Field.string.value word = 1 ∧ Field.comment.value word = 1)
  level : Field.level.value word ≠ 0 → Field.comment.value word = 1

/-- What no update changes: the reserved bits stay clear, and the number of the last command is that
of a command. -/
structure Genuine (s : State) : Prop where
  reserved : s.reserved = 0
  command : s.commandCode = 0 ∨ ∃ command : Command, s.commandCode.val = command.code

theorem genuine_start : start.Genuine := ⟨rfl, .inl rfl⟩

namespace Genuine

variable {s t : State}

theorem update {field : Field} {n : Nat} (h : s.Genuine) (update : Update s field n t) :
    t.Genuine := by
  cases update with
  | command command =>
    cases command with
    | none => exact ⟨h.reserved, .inl rfl⟩
    | some command => exact ⟨h.reserved, .inr ⟨command, rfl⟩⟩
  | depth | awaits | string | comment | level => exact ⟨h.reserved, h.command⟩

theorem updates (h : s.Genuine) (updates : Updates s t) : t.Genuine := by
  induction updates with
  | refl => exact h
  | tail _ last ih =>
    obtain ⟨_, _, last⟩ := last
    exact ih.update last

end Genuine

/-- Outside of comments the level is zero. -/
def LevelClear (s : State) : Prop := s.inComment = false → s.level.val = 0

theorem wellFormed_toWord {s : State} (coherent : s.Coherent) (genuine : s.Genuine)
    (clear : s.LevelClear) : WellFormed s.toWord := by
  constructor
  · rw [value_toWord]
    exact congrArg Fin.val genuine.reserved
  · rw [value_toWord]
    exact genuine.command.imp_left (congrArg Fin.val)
  · rw [value_toWord, value_toWord, number, number, Bool.toNat_eq_one]
    exact coherent.outside
  · rw [value_toWord, value_toWord, number, number, Bool.toNat_eq_one, Bool.toNat_eq_one]
    rintro ⟨string, comment⟩
    simp [coherent.apart string] at comment
  · rw [value_toWord, value_toWord, number, number, Bool.toNat_eq_one]
    intro level
    cases comment : s.inComment with
    | true => rfl
    | false => exact absurd (clear comment) level

end State

namespace Lexeme

open State

theorem commentBody_updates (s : State) (taken : Nat) (rest : Text) :
    s.Updates (commentBody s taken rest).after := by
  unfold commentBody
  simp only
  split
  · exact (Update.comment false).updates.trans (Update.level 0).updates
  · exact .refl

theorem comment_updates (s : State) (t : Text) : s.Updates (comment s t).after := by
  unfold comment
  split
  · next level _ =>
    have opened := (Update.comment (s := s) true).updates.trans (Update.level level).updates
    exact opened.trans (commentBody_updates ..)
  · exact .refl

theorem openParen_updates (s : State) : s.Updates (openParen s).after := by
  unfold openParen
  split
  · exact (Update.depth _).updates
  split
  · exact (Update.depth 1).updates.trans (Update.awaits false).updates
  · exact .refl

theorem closeParen_updates (s : State) : s.Updates (closeParen s).after := by
  unfold closeParen
  split
  · exact (Update.depth _).updates
  · exact (Update.awaits false).updates

theorem word_updates (s : State) (rest : Text) : s.Updates (word s rest).after := by
  unfold word
  simp only
  split
  · exact .refl
  · exact (Update.command _).updates.trans (Update.awaits true).updates

/-- A token changes the state by updates alone. -/
theorem next_updates (s : State) (c : UInt8) (t : Text) : s.Updates (next s c t).after := by
  have settles : s.Updates s.settled := (Update.awaits false).updates
  unfold next
  split
  · exact commentBody_updates ..
  split
  · exact (Update.string _).updates
  split
  · exact comment_updates ..
  split
  · exact .refl
  split
  · exact settles.trans (Update.string _).updates
  split
  · exact openParen_updates s
  split
  · exact closeParen_updates s
  split
  · exact settles
  split
  · exact settles
  · exact word_updates ..

theorem levelClear_commentBody {s : State} (h : s.LevelClear) (taken : Nat) (rest : Text) :
    (commentBody s taken rest).after.LevelClear := by
  unfold commentBody
  simp only
  split
  · exact fun _ => rfl
  · exact h

theorem levelClear_comment {s : State} (h : s.LevelClear) (t : Text) :
    (comment s t).after.LevelClear := by
  unfold comment
  split
  · next level _ =>
    have opened : ({ s with inComment := true }.withLevel level).LevelClear :=
      fun closed => Bool.noConfusion closed
    exact levelClear_commentBody opened (level + 3) (t.drop (level + 2))
  · exact h

theorem levelClear_openParen {s : State} (h : s.LevelClear) : (openParen s).after.LevelClear := by
  unfold openParen
  split
  · exact h
  · split <;> exact h

theorem levelClear_closeParen {s : State} (h : s.LevelClear) :
    (closeParen s).after.LevelClear := by
  unfold closeParen
  split <;> exact h

theorem levelClear_word {s : State} (h : s.LevelClear) (rest : Text) :
    (word s rest).after.LevelClear := by
  unfold word
  simp only
  split <;> exact h

/-- Tokens keep the level clear outside of comments. -/
theorem levelClear_next {s : State} (h : s.LevelClear) (c : UInt8) (t : Text) :
    (next s c t).after.LevelClear := by
  unfold next
  split
  · exact levelClear_commentBody h 0 (c :: t)
  split
  · exact h
  split
  · exact levelClear_comment h t
  split
  · exact h
  split
  · exact h
  split
  · exact levelClear_openParen h
  split
  · exact levelClear_closeParen h
  split
  · exact h
  split
  · exact h
  · exact levelClear_word h _

end Lexeme

namespace Step.Scanned

variable {step : Step}

theorem after_eq (h : step.Scanned) :
    ∃ c t, step.after = (Lexeme.next step.before c t).after := by
  obtain ⟨_, c, t, _, next⟩ := h
  exact ⟨c, t, congrArg Lexeme.after next⟩

theorem updates (h : step.Scanned) : step.before.Updates step.after := by
  obtain ⟨c, t, after⟩ := h.after_eq
  exact after ▸ Lexeme.next_updates step.before c t

theorem levelClear_after (h : step.Scanned) (clear : step.before.LevelClear) :
    step.after.LevelClear := by
  obtain ⟨c, t, after⟩ := h.after_eq
  exact after ▸ Lexeme.levelClear_next clear c t

end Step.Scanned

namespace Walk

open State

/-- The words of the states along a run are well formed if the first is. -/
theorem Run.wellFormed {s t : State} {steps : List Step} (run : Run s steps t)
    (coherent : s.Coherent) (genuine : s.Genuine) (clear : s.LevelClear) :
    WellFormed t.toWord ∧ ∀ step ∈ steps, WellFormed step.before.toWord ∧
      WellFormed step.after.toWord ∧ step.before.Updates step.after := by
  induction run with
  | nil => exact ⟨wellFormed_toWord coherent genuine clear, fun _ member => nomatch member⟩
  | cons scanned rest ih =>
    have genuine' := genuine.updates scanned.updates
    have clear' := scanned.levelClear_after clear
    obtain ⟨last, all⟩ := ih scanned.coherent_after genuine' clear'
    refine ⟨last, fun step member => ?_⟩
    rcases List.mem_cons.mp member with rfl | later
    · exact ⟨wellFormed_toWord coherent genuine clear,
        wellFormed_toWord scanned.coherent_after genuine' clear', scanned.updates⟩
    · exact all step later

theorem wellFormed_steps (lines : List Text) :
    WellFormed (lines.foldl Scan.stateAfter .start).toWord ∧
      ∀ step ∈ steps lines, WellFormed step.before.toWord ∧ WellFormed step.after.toWord ∧
        step.before.Updates step.after :=
  (run_steps lines).wellFormed coherent_start genuine_start fun _ => rfl

/-- **Packed states are well formed and their fields do not run into each other.** The words of all
states that scanning a script reaches, between its tokens and at the ends of its lines, have clear
reserved bits and the number of a command; a word awaits its parenthesis only at depth zero, no
string is open in a comment, and the level is that of an open comment. A token changes the state by
updates alone, and an update of whatever state puts a number, or the largest that fits in place of
it, into its own field of the word and leaves all other fields as they are, as masks and shifts do
it. -/
theorem packed_states_wellFormed (lines : List Text) :
    (∀ step ∈ steps lines, WellFormed step.before.toWord ∧ WellFormed step.after.toWord ∧
      step.before.Updates step.after) ∧
    (∀ n, WellFormed (stateAt lines n).toWord) ∧
    (∀ (s t : State) (field : Field) (n : Nat), Update s field n t →
      t.toWord = field.put s.toWord n ∧ field.value t.toWord = min n field.limit ∧
        ∀ other, other ≠ field → other.value t.toWord = other.value s.toWord) ∧
    ∀ s : State, s.FollowsWord := by
  refine ⟨(wellFormed_steps lines).2, fun n => (wellFormed_steps (lines.take n)).1, ?_, followsWord⟩
  intro s t field n update
  refine ⟨update.toWord_eq, ?_, fun other ne => ?_⟩
  · rw [value_toWord, update.number_self]
  · rw [value_toWord, value_toWord, update.number_of_ne ne]

/-- Inside the comment of a call, and past the last depth that fits. -/
theorem packed_states_wellFormed_past_limit :
    WellFormed (stateAt [utf8 "set(A #[=[ b"] 1).toWord ∧
    (stateAt [utf8 "set(A #[=[ b"] 1).toWord = 0xc4801 ∧
    (∃ step ∈ steps [utf8 "set(A #[=[ b"], step.after.toWord = 0xc4801 ∧
      WellFormed step.before.toWord) ∧
    Field.command.value (ofWord 0xc48ff |>.withDepth 256).toWord = 0x48 := by
  obtain ⟨along, ends, updates, _⟩ := packed_states_wellFormed [utf8 "set(A #[=[ b"]
  refine ⟨ends 1, by decide +kernel, ?_, ?_⟩
  · obtain ⟨step, member, word⟩ : ∃ step ∈ steps [utf8 "set(A #[=[ b"],
        step.after.toWord = 0xc4801 := by decide +kernel
    exact ⟨step, member, word, (along step member).1⟩
  · obtain ⟨_, _, others⟩ := updates (ofWord 0xc48ff) _ _ _ (.depth 256)
    rw [others .command (by decide)]
    decide +kernel

end Walk

end CMakeSense
