import CMakeSense.Proofs.Token.Scanner

/-! What a token does to argument lists. `Lexeme.Effect` lists everything that one token can do to
the depth, the last command and the word that awaits its parenthesis: a parenthesis opens or closes
an argument list, a word outside of one names a command, and any other token either leaves the
command that has been named alone, gives it up, or lies within the list. `Lexeme.next_effect` shows
that the list is complete; what follows about walks and readers argues by these six cases and never
looks into the scanner again. -/

namespace CMakeSense

namespace Trigger

@[simp] theorem has_none (flag : Trigger) : none.has flag = false := by simp [none, has]

@[simp] theorem has_memberSelect_parameterStart : memberSelect.has parameterStart = false := rfl

@[simp] theorem has_memberSelect_parameterEnd : memberSelect.has parameterEnd = false := rfl

@[simp] theorem has_parameterEnd_self : parameterEnd.has parameterEnd = true := rfl

@[simp] theorem has_opening_parameterStart :
    (union parameterStart memberSelect).has parameterStart = true := rfl

end Trigger

namespace State

@[simp] theorem insideParens_iff (s : State) : s.insideParens = true ↔ 0 < s.depth.val := by
  simp [insideParens]

theorem insideParens_eq_false {s : State} (h : ¬s.insideParens = true) : s.depth.val = 0 := by
  simpa [insideParens] using h

@[simp] theorem val_depth_withDepth (s : State) (n : Nat) :
    (s.withDepth n).depth.val = min n 255 := rfl

@[simp] theorem awaitsParen_withDepth (s : State) (n : Nat) :
    (s.withDepth n).awaitsParen = s.awaitsParen := rfl

@[simp] theorem depth_settled (s : State) : s.settled.depth = s.depth := rfl

@[simp] theorem awaitsParen_settled (s : State) : s.settled.awaitsParen = false := rfl

/-- The states agree on the command that has been named and on where its argument list is. -/
structure Continues (s t : State) : Prop where
  depth : t.depth = s.depth
  lastCommand : t.lastCommand = s.lastCommand

theorem Continues.refl (s : State) : s.Continues s := ⟨rfl, rfl⟩

theorem Continues.settled (s : State) : s.Continues s.settled := ⟨rfl, rfl⟩

theorem Continues.comment (s : State) (level : Nat) :
    s.Continues ({ s with inComment := true }.withLevel level) := ⟨rfl, rfl⟩

/-- What holds of every state that scanning reaches (`Lexeme.coherent_next`): a word awaits its
parenthesis only outside of argument lists and of strings, and no string is open in a comment. -/
structure Coherent (s : State) : Prop where
  outside : s.awaitsParen = true → s.depth.val = 0
  plain : s.awaitsParen = true → s.inString = false
  apart : s.inString = true → s.inComment = false

theorem coherent_start : start.Coherent := ⟨nofun, nofun, nofun⟩

theorem Coherent.awaitsParen_of_inside {s : State} (h : s.Coherent) (inside : 0 < s.depth.val) :
    s.awaitsParen = false :=
  Bool.eq_false_iff.mpr fun awaits => Nat.ne_of_gt inside (h.outside awaits)

theorem Coherent.awaitsParen_of_inString {s : State} (h : s.Coherent) (string : s.inString = true) :
    s.awaitsParen = false :=
  Bool.eq_false_iff.mpr fun awaits => by simp [h.plain awaits] at string

end State

namespace Lexeme

/-- What the token `l` at the head of `rest` does in the state `s`. -/
inductive Effect (s : State) (rest : Text) (l : Lexeme) : Prop where
  /-- The parenthesis that a word awaits opens its argument list. -/
  | opens (outside : s.depth.val = 0) (awaited : s.awaitsParen = true) (kind : l.kind = .openParen)
      (trigger : l.trigger = .union .parameterStart .memberSelect)
      (after : l.after = (s.withDepth 1).settled)
  /-- The parenthesis that matches the opening one closes the argument list. -/
  | closes (inner : s.depth.val = 1) (kind : l.kind = .closeParen)
      (trigger : l.trigger = .parameterEnd) (after : l.after = s.withDepth 0)
  /-- A word outside of argument lists names a command. -/
  | names (outside : s.depth.val = 0) (string : s.inString = false)
      (kind : l.kind.isWord = true) (trigger : l.trigger = .none)
      (command : l.command = Command.ofName? (rest.take l.length))
      (after : l.after = { s.withCommand l.command with awaitsParen := true })
  /-- Blanks and comments may stand between a word and its parenthesis. -/
  | rests (outside : s.depth.val = 0) (kind : l.kind = .whiteSpace ∨ l.kind = .comment)
      (trigger : l.trigger = .none) (continues : s.Continues l.after)
      (awaits : l.after.awaitsParen = s.awaitsParen) (string : l.after.inString = s.inString)
  /-- Anything else outside of argument lists gives the word up. -/
  | breaks (outside : s.depth.val = 0) (word : l.kind.isWord = false)
      (blank : l.kind ≠ .whiteSpace) (comment : l.kind ≠ .comment)
      (start : l.trigger.has .parameterStart = false) (stop : l.trigger.has .parameterEnd = false)
      (continues : s.Continues l.after) (awaits : l.after.awaitsParen = false)
  /-- The token lies within an argument list. -/
  | stays (inside : 0 < s.depth.val) (start : l.trigger.has .parameterStart = false)
      (stop : l.trigger.has .parameterEnd = false) (within : 0 < l.after.depth.val)
      (lastCommand : l.after.lastCommand = s.lastCommand)
      (awaits : l.after.awaitsParen = true → s.awaitsParen = true)

theorem opener?_kind {t : Text} {kind : TokenKind} {n : Nat} (h : opener? t = some (kind, n)) :
    kind.isWord = false ∧ kind ≠ .whiteSpace ∧ kind ≠ .comment := by
  simp only [opener?] at h
  split at h
  · cases h
    decide
  split at h
  · cases h
    decide
  split at h
  · cases h
    decide
  · cases h

/-- A blank or a comment in any place. -/
private theorem Effect.of_rests {s : State} {rest : Text} {l : Lexeme}
    (kind : l.kind = .whiteSpace ∨ l.kind = .comment)
    (trigger : l.trigger = if s.depth.val = 1 ∧ l.kind = .whiteSpace then
      .union .parameterNext .memberSelect else .none)
    (continues : s.Continues l.after) (awaits : l.after.awaitsParen = s.awaitsParen)
    (string : l.after.inString = s.inString) : Effect s rest l := by
  rcases Nat.eq_zero_or_pos s.depth.val with outside | inside
  · exact .rests outside kind (by simp [trigger, outside]) continues awaits string
  refine .stays inside ?_ ?_ (continues.depth ▸ inside) continues.lastCommand (awaits ▸ id)
  · rw [trigger]; split <;> rfl
  · rw [trigger]; split <;> rfl

/-- A token without parentheses or names that is no blank and no comment, in any place. -/
private theorem Effect.of_settled {s : State} {rest : Text} {l : Lexeme}
    (word : l.kind.isWord = false) (blank : l.kind ≠ .whiteSpace) (comment : l.kind ≠ .comment)
    (trigger : l.trigger = .none ∨ l.trigger = .memberSelect)
    (continues : s.Continues l.after)
    (awaits : l.after.awaitsParen = false) : Effect s rest l := by
  have start : l.trigger.has .parameterStart = false := by
    rcases trigger with h | h <;> simp [h]
  have stop : l.trigger.has .parameterEnd = false := by
    rcases trigger with h | h <;> simp [h]
  rcases Nat.eq_zero_or_pos s.depth.val with outside | inside
  · exact .breaks outside word blank comment start stop continues awaits
  · exact .stays inside start stop (continues.depth ▸ inside) continues.lastCommand
      (fun h => by simp [awaits] at h)

theorem commentBody_effect {s u : State} (h : s.Continues u) (ha : u.awaitsParen = s.awaitsParen)
    (hs : u.inString = s.inString) (rest body : Text) (taken : Nat) :
    Effect s rest (commentBody u taken body) := by
  unfold commentBody
  simp only
  split
  · exact .of_rests (.inr rfl) (by simp) ⟨h.depth, h.lastCommand⟩ ha hs
  · exact .of_rests (.inr rfl) (by simp) h ha hs

theorem comment_effect (s : State) (rest t : Text) : Effect s rest (comment s t) := by
  unfold comment
  split
  · exact commentBody_effect (.comment s _) rfl rfl ..
  · exact .of_rests (.inr rfl) (by simp) (.refl s) rfl rfl

theorem blanks_effect (s : State) (rest t : Text) : Effect s rest (blanks s t) :=
  .of_rests (.inl rfl) (by simp [blanks]) (.refl s) rfl rfl

theorem stringBody_effect {s u : State} (h : s.Continues u) (ha : u.awaitsParen = false)
    (rest body : Text) (taken : Nat) : Effect s rest (stringBody u taken body) :=
  .of_settled rfl (by simp [stringBody]) (by simp [stringBody]) (.inl rfl) ⟨h.depth, h.lastCommand⟩
    ha

theorem openParen_effect (s : State) (rest : Text) : Effect s rest (openParen s) := by
  unfold openParen
  split
  · next inside =>
    rw [State.insideParens_iff] at inside
    have deeper : 0 < (s.withDepth (s.depth.val + 1)).depth.val := by
      rw [State.val_depth_withDepth]
      omega
    exact .stays inside (by simp) (by simp) deeper rfl id
  next outside =>
  have outside := State.insideParens_eq_false outside
  split
  · next awaited => exact .opens outside awaited rfl rfl rfl
  · next given =>
    have given : s.awaitsParen = false := by simpa using given
    exact .breaks outside rfl (by simp) (by simp) (by simp) (by simp) (.refl s) given

theorem closeParen_effect (s : State) (rest : Text) : Effect s rest (closeParen s) := by
  unfold closeParen
  split
  · next inside =>
    rw [State.insideParens_iff] at inside
    by_cases inner : s.depth.val = 1
    · exact .closes inner rfl (by simp [inner]) (by simp [inner])
    · exact .stays inside (by simp [inner]) (by simp [inner]) (by simp; omega) rfl id
  · next outside =>
    exact .breaks (State.insideParens_eq_false outside) rfl (by simp) (by simp) (by simp) (by simp)
      (.settled s) rfl

theorem isWord_word (s : State) (rest : Text) : (word s rest).kind.isWord = true := by
  simp only [word]
  split
  · rfl
  · split <;> rfl

theorem word_effect {s : State} (hs : s.inString = false) (rest : Text) :
    Effect s rest (word s rest) := by
  unfold word
  simp only
  split
  · next inside =>
    rw [State.insideParens_iff] at inside
    exact .stays inside (by simp) (by simp) inside rfl id
  · next outside =>
    refine .names (State.insideParens_eq_false outside) hs ?_ rfl rfl rfl
    simp only
    split <;> rfl

/-- A token does one of the six things. -/
theorem next_effect {s : State} (h : s.Coherent) (c : UInt8) (t : Text) :
    Effect s (c :: t) (next s c t) := by
  unfold next
  split
  · exact commentBody_effect (.refl s) rfl rfl ..
  split
  · next string => exact stringBody_effect (.refl s) (h.awaitsParen_of_inString string) ..
  next closed =>
  split
  · exact comment_effect ..
  split
  · exact blanks_effect ..
  split
  · exact stringBody_effect (.settled s) rfl ..
  split
  · exact openParen_effect ..
  split
  · exact closeParen_effect ..
  split
  · exact .of_settled rfl (by simp) (by simp) (.inl rfl) (.settled s) rfl
  split
  · next kind length opener =>
    obtain ⟨word, blank, comment⟩ := opener?_kind opener
    exact .of_settled word blank comment (.inr rfl) (.settled s) rfl
  · exact word_effect (by simpa using closed) _

/-- After a token a word awaits its parenthesis only where it may. -/
theorem Effect.awaits {s : State} {rest : Text} {l : Lexeme} (h : s.Coherent)
    (effect : Effect s rest l) (awaits : l.after.awaitsParen = true) :
    l.after.depth.val = 0 ∧ l.after.inString = false := by
  cases effect with
  | opens _ _ _ _ after => simp [after] at awaits
  | closes inner _ _ after =>
    rw [after, State.awaitsParen_withDepth, h.awaitsParen_of_inside (by omega)] at awaits
    cases awaits
  | names outside string _ _ _ after => exact after ▸ ⟨outside, string⟩
  | rests outside _ _ continues same string =>
    exact ⟨continues.depth ▸ outside, string ▸ h.plain (same ▸ awaits)⟩
  | breaks _ _ _ _ _ _ _ given => simp [given] at awaits
  | stays inside _ _ _ _ given =>
    rw [h.awaitsParen_of_inside inside] at given
    cases given awaits

theorem inString_commentBody (s : State) (taken : Nat) (body : Text) :
    (commentBody s taken body).after.inString = s.inString := by
  unfold commentBody
  simp only
  split <;> rfl

theorem inString_comment (s : State) (t : Text) : (comment s t).after.inString = s.inString := by
  unfold comment
  split
  · exact inString_commentBody ..
  · rfl

theorem inString_openParen (s : State) : (openParen s).after.inString = s.inString := by
  unfold openParen
  split
  · rfl
  · split <;> rfl

theorem inString_closeParen (s : State) : (closeParen s).after.inString = s.inString := by
  unfold closeParen
  split <;> rfl

theorem inString_word (s : State) (rest : Text) : (word s rest).after.inString = s.inString := by
  simp only [word]
  split <;> rfl

theorem inComment_openParen (s : State) : (openParen s).after.inComment = s.inComment := by
  unfold openParen
  split
  · rfl
  · split <;> rfl

theorem inComment_closeParen (s : State) : (closeParen s).after.inComment = s.inComment := by
  unfold closeParen
  split <;> rfl

theorem inComment_word (s : State) (rest : Text) : (word s rest).after.inComment = s.inComment := by
  simp only [word]
  split <;> rfl

/-- A token that leaves a string open leaves no comment open. -/
theorem inComment_next {s : State} (h : s.Coherent) (c : UInt8) (t : Text)
    (string : (next s c t).after.inString = true) : (next s c t).after.inComment = false := by
  unfold next at string ⊢
  by_cases comment : s.inComment = true
  · rw [if_pos comment, inString_commentBody] at string
    simp [h.apart string] at comment
  rw [if_neg comment] at string ⊢
  have comment : s.inComment = false := by simpa using comment
  split
  · exact comment
  next plain =>
  rw [if_neg plain] at string
  split
  · next hash =>
    rw [if_pos hash, inString_comment] at string
    exact absurd string plain
  split
  · exact comment
  split
  · exact comment
  split
  · exact (inComment_openParen s).trans comment
  split
  · exact (inComment_closeParen s).trans comment
  split
  · exact comment
  split
  · exact comment
  · exact (inComment_word ..).trans comment

/-- Scanning keeps states coherent. -/
theorem coherent_next {s : State} (h : s.Coherent) (c : UInt8) (t : Text) :
    (next s c t).after.Coherent where
  outside awaits := ((next_effect h c t).awaits h awaits).1
  plain awaits := ((next_effect h c t).awaits h awaits).2
  apart := inComment_next h c t

/-- In a string only its own bytes follow. -/
theorem kind_next_of_inString {s : State} (h : s.Coherent) (string : s.inString = true) (c : UInt8)
    (t : Text) : (next s c t).kind = .stringLiteral := by
  simp [next, h.apart string, string, stringBody]

end Lexeme

end CMakeSense
