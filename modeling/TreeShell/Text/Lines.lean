import TreeShell.Text

/-! The lines of a file. One end of line at the very end closes the last line and does
not open another. -/
namespace TreeShell.Text

/-- The lines of a text; the empty text has none. -/
def lines (t : Text) : List Text :=
  if t.isEmpty then [] else splitOn (chr '\n') (dropFinal (chr '\n') t)

end TreeShell.Text
