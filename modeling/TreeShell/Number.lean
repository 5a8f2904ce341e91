import TreeShell.Text.Blank
import TreeShell.Text.Digit

/-! Decimal numbers as a machine compares them: rounded to 53 significant bits, with the
smallest step of 2^-1074, and with everything from 2^1024 on counted as one largest
number. Two numbers that round to the same one are equal. -/
namespace TreeShell.Number

def precision : Nat := 53

def finest : Nat := 1074

def largest : Nat := Nat.pow 2 (1024 + finest)

/-- A quotient, rounded to the nearest whole number; a half goes to the even one. -/
def roundQuotient (num den : Nat) : Nat :=
  let quotient := num / den
  let twice := 2 * (num % den)
  if twice < den ∨ (twice = den ∧ quotient % 2 = 0) then quotient else quotient + 1

def nearest (num den : Nat) : Nat :=
  let steps := num * Nat.pow 2 finest
  let shift := Nat.log2 (steps / den) + 1 - precision
  let coarse := Nat.pow 2 shift
  min largest (roundQuotient steps (den * coarse) * coarse)

def digitsValue (digits : Text) : Nat :=
  digits.foldl (fun value c => value * 10 + (Text.digitValue? c).getD 0) 0

def fraction : Text → Text
  | '.' :: rest => rest.takeWhile Text.isDecimalDigit
  | _ => []

/-- The number without a sign at the beginning of a text, in steps; zero when there is none. -/
def unsigned (t : Text) : Nat :=
  let whole := t.takeWhile Text.isDecimalDigit
  if whole.isEmpty then 0
  else
    let digits := fraction (t.dropWhile Text.isDecimalDigit)
    nearest (digitsValue (whole ++ digits)) (Nat.pow 10 digits.length)

/-- The number at the beginning of a line, after blanks, in steps. -/
def ofLine (line : Text) : Int :=
  match line.dropWhile Text.isBlank with
  | '-' :: rest => -(unsigned rest : Int)
  | '+' :: rest => unsigned rest
  | rest => unsigned rest

end TreeShell.Number
