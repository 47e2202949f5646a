import CMakeSense.Text.Basic

/-! Parameters of commands and the notation that shows them in a call tip: a name alone, `[name]`
for an optional parameter, and `name1 name2 ...` for one that takes any number of arguments. -/

namespace CMakeSense

/-- One parameter of a command. -/
structure Parameter where
  name : Text
  optional : Bool
  variadic : Bool
  deriving DecidableEq, Repr

namespace Parameter

/-- A parameter that takes exactly one argument. -/
def plain (name : Text) : Parameter := ⟨name, false, false⟩

/-- The notation of a parameter. -/
def render (p : Parameter) : Text :=
  let body := if p.variadic then p.name ++ utf8 "1 " ++ p.name ++ utf8 "2 ..." else p.name
  if p.optional then Ascii.openBracket :: body ++ [Ascii.closeBracket] else body

/-- Reads what stands inside the brackets: a slot that ends in an ellipsis is variadic and takes
its name from its first word, without the digits at its end. -/
def parseBody (optional : Bool) (slot : Text) : Parameter :=
  if (utf8 " ...").isSuffixOf slot then
    let word := slot.takeWhile (· ≠ Ascii.space)
    ⟨(word.reverse.dropWhile Ascii.isDigit).reverse, optional, true⟩
  else ⟨slot, optional, false⟩

/-- Reads the notation of a parameter. -/
def parse (slot : Text) : Parameter :=
  if slot.head? = some Ascii.openBracket && slot.getLast? = some Ascii.closeBracket then
    parseBody true slot.tail.dropLast
  else parseBody false slot

/-- A call of `name` with the notations of its parameters. -/
def call (name : Text) (parameters : List Parameter) : Text :=
  name ++ Ascii.openParen :: Text.join [Ascii.space] (parameters.map render) ++ [Ascii.closeParen]

end Parameter

end CMakeSense
