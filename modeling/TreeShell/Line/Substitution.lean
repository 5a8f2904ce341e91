import TreeShell.Text

/-! Command substitutions: the places of a line where `$(…)` stands. Quotes and
backslashes are respected, and `$((` does not begin one. -/
namespace TreeShell.Substitution

/-- A place in a line that holds `$(`, the inner text and `)`. -/
structure Span where
  start : Nat
  stop : Nat
  inner : Text
  deriving DecidableEq

/-- The offset of the parenthesis that closes `depth` open ones. A quote hides
parentheses; `skip` says that a backslash stood before. -/
def closingFrom? (depth : Nat) (quote : Option CodePoint) (skip : Bool) (offset : Nat) :
    Text → Option Nat
  | [] => none
  | c :: rest =>
    if skip then closingFrom? depth quote false (offset + 1) rest
    else match quote with
      | some q =>
        if c == q then closingFrom? depth none false (offset + 1) rest
        else closingFrom? depth quote (c == '\\' && q == '"') (offset + 1) rest
      | none =>
        if c == '\'' || c == '"' then closingFrom? depth (some c) false (offset + 1) rest
        else if c == '\\' then closingFrom? depth none true (offset + 1) rest
        else if c == '(' then closingFrom? (depth + 1) none false (offset + 1) rest
        else if c == ')' then
          if depth ≤ 1 then some offset else closingFrom? (depth - 1) none false (offset + 1) rest
        else closingFrom? depth none false (offset + 1) rest

/-- The offset of the parenthesis that closes one opened just before the text. -/
def closing? (t : Text) : Option Nat := closingFrom? 1 none false 0 t

def closingIndex? (line : Text) (start : Nat) : Option Nat :=
  (closing? (line.drop start)).map (start + ·)

def opens (t : Text) : Bool := [chr '$', chr '('].isPrefixOf t && (t.drop 2).head? != some (chr '(')

/-- The spans in the rest of a line and the place of a `$(` that is never closed. `skip`
characters belong to a span or an escape; the flags say which quotes are open. -/
def spansFrom (skip : Nat) (single double : Bool) (position : Nat) :
    Text → List Span × Option Nat
  | [] => ([], none)
  | c :: rest =>
    if skip ≠ 0 then spansFrom (skip - 1) single double (position + 1) rest
    else if c == '\\' && !single then spansFrom 1 single double (position + 1) rest
    else if c == '\'' && !double then spansFrom 0 (!single) double (position + 1) rest
    else if c == '"' && !single then spansFrom 0 single (!double) (position + 1) rest
    else if !single && opens (c :: rest) then
      match closing? (rest.drop 1) with
      | none => ([], some position)
      | some n =>
        let span : Span := ⟨position, position + n + 3, (rest.drop 1).take n⟩
        let (spans, unmatched) := spansFrom (n + 2) single double (position + 1) rest
        (span :: spans, unmatched)
    else spansFrom 0 single double (position + 1) rest

/-- The spans of a line in order, and the place of a `$(` that is never closed. -/
def spans (line : Text) : List Span × Option Nat := spansFrom 0 false false 0 line

def unmatchedWarning (position : Nat) : Text :=
  "Unmatched $( at position " ++ Text.ofNat position ++ ", leaving it literal"

def warnings (line : Text) : List Text :=
  match (spans line).2 with
  | some position => [unmatchedWarning position]
  | none => []

def splice (line : Text) (span : Span) (output : Text) : Text :=
  line.take span.start ++ output ++ line.drop span.stop

end TreeShell.Substitution
