import TreeShell.Text.Blank
import TreeShell.Text.Digit

/-! Integers as they are typed: digits of any script, a sign, underscores between digits
and blanks around the whole. -/
namespace TreeShell.Text

/-- The number that a run of decimal digits denotes, `none` when another character occurs. -/
def digits? (t : Text) : Option Nat :=
  t.foldl (fun value c => do return (← value) * 10 + (← digitValue? c)) (some 0)

/-- The digits of a number with single underscores between them taken out. -/
def withoutUnderscores? : Text → Option Text
  | [] => none
  | [c] => if c = '_' then none else some [c]
  | c :: '_' :: rest => if c = '_' then none else (withoutUnderscores? rest).map (c :: ·)
  | c :: rest => (withoutUnderscores? rest).map (c :: ·)

def integerDigitLimit : Nat := 4300

/-- A number without a sign. -/
def natural? (t : Text) : Option Nat := do
  let digits ← withoutUnderscores? t
  if digits.length > integerDigitLimit then none else digits? digits

/-- An integer: blanks around it and one sign in front are allowed. -/
def integer? (t : Text) : Option Int :=
  match strip t with
  | '-' :: rest => (natural? rest).map fun n => -(n : Int)
  | '+' :: rest => (natural? rest).map Int.ofNat
  | rest => (natural? rest).map Int.ofNat

end TreeShell.Text
