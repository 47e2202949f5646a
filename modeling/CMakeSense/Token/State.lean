import CMakeSense.Catalog.Command

/-! The state that scanning carries from one token to the next and over line ends: how deeply
parentheses are nested, which command was named last, and whether a string or a bracket comment
is open. A state is a record of fields of fixed width and packs into a 32-bit word, lowest field
first: eight bits of depth, eight bits of command number, one bit each for a word that awaits its
parenthesis, an open string and an open comment, four bits of comment level, and nine reserved
bits that no scan changes. States and words correspond one to one (`ofWord_toWord`,
`toWord_ofWord`). -/

namespace CMakeSense

structure State where
  /-- Parentheses open inside an argument list. -/
  depth : Fin 256
  /-- The number of the last command named outside an argument list. -/
  commandCode : Fin 256
  /-- A word outside an argument list is waiting for its parenthesis. -/
  awaitsParen : Bool
  inString : Bool
  inComment : Bool
  /-- The number of equals signs in the delimiters of the open comment. -/
  level : Fin 16
  reserved : Fin 512
  deriving DecidableEq, Repr

namespace State

/-- The state at the top of a script. -/
def start : State := ⟨0, 0, false, false, false, 0, 0⟩

/-- The last command named outside an argument list; a user-defined command counts as none. -/
def lastCommand (s : State) : Option Command := Command.ofCode? s.commandCode

/-- Whether scanning is inside an argument list. -/
def insideParens (s : State) : Bool := 0 < s.depth.val

/-- Sets the depth. Depths past the last one that fits count as that one. -/
def withDepth (s : State) (depth : Nat) : State :=
  { s with depth := ⟨min depth 255, by omega⟩ }

def withCommand (s : State) (command : Option Command) : State :=
  { s with commandCode := (command.map fun c => ⟨c.code, c.code_lt⟩).getD 0 }

/-- Sets the comment level. Levels past the last one that fits count as that one. -/
def withLevel (s : State) (level : Nat) : State :=
  { s with level := ⟨min level 15, by omega⟩ }

/-- The state once the word that awaited a parenthesis has been given up. -/
def settled (s : State) : State := { s with awaitsParen := false }

/-- The packed state. -/
def toWord (s : State) : UInt32 :=
  (s.depth.val + s.commandCode.val * 0x100 + s.awaitsParen.toNat * 0x10000 +
    s.inString.toNat * 0x20000 + s.inComment.toNat * 0x40000 + s.level.val * 0x80000 +
    s.reserved.val * 0x800000).toUInt32

/-- The state that a word packs. -/
def ofWord (word : UInt32) : State where
  depth := ⟨word.toNat % 256, by omega⟩
  commandCode := ⟨word.toNat / 0x100 % 256, by omega⟩
  awaitsParen := word.toNat.testBit 16
  inString := word.toNat.testBit 17
  inComment := word.toNat.testBit 18
  level := ⟨word.toNat / 0x80000 % 16, by omega⟩
  reserved := ⟨word.toNat / 0x800000 % 512, by omega⟩

/-- The number of a packed state. -/
theorem toNat_toWord (s : State) :
    s.toWord.toNat = s.depth.val + s.commandCode.val * 0x100 + s.awaitsParen.toNat * 0x10000 +
      s.inString.toNat * 0x20000 + s.inComment.toNat * 0x40000 + s.level.val * 0x80000 +
      s.reserved.val * 0x800000 := by
  have hd := s.depth.isLt
  have hc := s.commandCode.isLt
  have hl := s.level.isLt
  have hr := s.reserved.isLt
  have ha := s.awaitsParen.toNat_lt
  have hs := s.inString.toNat_lt
  have hi := s.inComment.toNat_lt
  simp only [toWord, Nat.toUInt32, UInt32.toNat_ofNat']
  omega

theorem testBit_eq_of_shift_mod {n k : Nat} {b : Bool} (h : (n >>> k) % 2 = b.toNat) :
    n.testBit k = b := by
  rw [Nat.testBit_eq_decide_div_mod_eq, ← Nat.shiftRight_eq_div_pow, h]
  cases b <;> rfl

/-- Packing loses nothing. -/
@[simp] theorem ofWord_toWord (s : State) : ofWord s.toWord = s := by
  have h := s.toNat_toWord
  have hd := s.depth.isLt
  have hc := s.commandCode.isLt
  have hl := s.level.isLt
  have ha := s.awaitsParen.toNat_lt
  have hs := s.inString.toNat_lt
  have hi := s.inComment.toNat_lt
  have h16 : s.toWord.toNat.testBit 16 = s.awaitsParen := testBit_eq_of_shift_mod (by omega)
  have h17 : s.toWord.toNat.testBit 17 = s.inString := testBit_eq_of_shift_mod (by omega)
  have h18 : s.toWord.toNat.testBit 18 = s.inComment := testBit_eq_of_shift_mod (by omega)
  cases s
  simp only [ofWord, h16, h17, h18, State.mk.injEq, Fin.ext_iff, true_and]
  simp only at h hd hc hl ha hs hi
  omega

/-- Every word packs a state. -/
@[simp] theorem toWord_ofWord (word : UInt32) : (ofWord word).toWord = word := by
  have hw := word.toNat_lt
  apply UInt32.toNat_inj.mp
  rw [toNat_toWord]
  simp only [ofWord, Nat.toNat_testBit, Nat.reducePow]
  omega

@[simp] theorem lastCommand_withCommand (s : State) (command : Option Command) :
    (s.withCommand command).lastCommand = command := by
  cases command with
  | none => rfl
  | some command => exact Command.ofCode?_code command

end State

end CMakeSense
