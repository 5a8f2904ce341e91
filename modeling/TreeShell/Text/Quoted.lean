import TreeShell.Text.Printable

/-! The quoted form of a text inside a message: between quotes, on one line, with
escapes for whatever has no visible form. -/
namespace TreeShell.Text

def hexDigits (count n : Nat) : Text :=
  let digits := (Nat.toDigits 16 n).map chr
  List.replicate (count - digits.length) (chr '0') ++ digits

def quotedChar (quote c : CodePoint) : Text :=
  if c = quote || c = '\\' then [chr '\\', c]
  else if c = '\n' then "\\n"
  else if c = '\r' then "\\r"
  else if c = '\t' then "\\t"
  else if isPrintable c then [c]
  else if c.toNat < 0x100 then "\\x" ++ hexDigits 2 c.toNat
  else if c.toNat < 0x10000 then "\\u" ++ hexDigits 4 c.toNat
  else "\\U" ++ hexDigits 8 c.toNat

/-- Between single quotes, or between double quotes when the text holds a single quote
and no double one. -/
def quoted (t : Text) : Text :=
  let quote := if t.contains (chr '\'') && !t.contains (chr '"') then chr '"' else chr '\''
  quote :: t.flatMap (quotedChar quote) ++ [quote]

end TreeShell.Text
