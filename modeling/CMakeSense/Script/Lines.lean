import CMakeSense.Text.Basic

/-! The lines of a text. A text with `n` newlines has `n + 1` lines; a carriage return at the end
of a line belongs to the line end. -/

namespace CMakeSense.Script

/-- The lines of a text without their line ends. -/
def lines (text : Text) : List Text :=
  (Text.splitOn Ascii.newline text).map (Text.trimSuffix [Ascii.carriageReturn])

/-- The lines joined with newlines. -/
def text (lines : List Text) : Text := Text.join [Ascii.newline] lines

end CMakeSense.Script
