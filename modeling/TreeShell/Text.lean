import TreeShell.CodePoint

/-! Texts and the operations that every part of the shell shares: splitting, joining,
trimming and searching. A text is a list of code points, so that every position and
length counts code points, and so that each operation is a recursion on the text. -/
namespace TreeShell

abbrev Text := List CodePoint

namespace Text

abbrev ofString (s : String) : Text := s.toList.map chr

@[simp] theorem ofString_eq (s : String) : ofString s = s.toList.map chr := rfl

instance : Coe String Text := ⟨ofString⟩

/-- The pieces between the occurrences of `sep`. There is one more piece than occurrences,
and joining the pieces by `sep` gives the text back. -/
def splitOn (sep : CodePoint) : Text → List Text
  | [] => [[]]
  | c :: rest =>
    if c = sep then [] :: splitOn sep rest
    else match splitOn sep rest with
      | [] => [[c]]
      | piece :: pieces => (c :: piece) :: pieces

def join (sep : Text) : List Text → Text
  | [] => []
  | [piece] => piece
  | piece :: pieces => piece ++ sep ++ join sep pieces

/-- The pieces in order, each on a line of its own. -/
def joinLines (lines : List Text) : Text := join [chr '\n'] lines

/-- The text up to the first `sep` and what follows it, `none` when there is no `sep`. -/
def breakOn? (sep : CodePoint) : Text → Option (Text × Text)
  | [] => none
  | c :: rest =>
    if c = sep then some ([], rest)
    else (breakOn? sep rest).map fun (before, after) => (c :: before, after)

/-- The text up to the last `sep` and what follows it, `none` when there is no `sep`. -/
def breakOnLast? (sep : CodePoint) (t : Text) : Option (Text × Text) :=
  (breakOn? sep t.reverse).map fun (after, before) => (before.reverse, after.reverse)

def dropEndWhile (p : CodePoint → Bool) (t : Text) : Text :=
  (t.reverse.dropWhile p).reverse

def trimWhile (p : CodePoint → Bool) (t : Text) : Text :=
  dropEndWhile p (t.dropWhile p)

def occursIn (part : Text) : Text → Bool
  | [] => part.isEmpty
  | c :: rest => part.isPrefixOf (c :: rest) || occursIn part rest

def dropStart? : (part : Text) → Text → Option Text
  | [], t => some t
  | _ :: _, [] => none
  | p :: part, c :: rest => if p = c then dropStart? part rest else none

def dropFinal (c : CodePoint) (t : Text) : Text :=
  if t.getLast? = some c then t.dropLast else t

/-- Replaces each two-character occurrence of `x y` by `x z`, from left to right. -/
def replaceAfter (x y z : CodePoint) : Text → Text
  | a :: b :: rest =>
    if a = x ∧ b = y then x :: z :: replaceAfter x y z rest
    else a :: replaceAfter x y z (b :: rest)
  | t => t

def padStart (width : Nat) (t : Text) : Text :=
  List.replicate (width - t.length) (chr ' ') ++ t

def padEnd (width : Nat) (t : Text) : Text :=
  t ++ List.replicate (width - t.length) (chr ' ')

def ofNat (n : Nat) : Text := (Nat.toDigits 10 n).map chr

/-- The decimal digits of an integer, after a minus sign if it is negative. -/
def ofInt : Int → Text
  | .ofNat n => ofNat n
  | .negSucc n => chr '-' :: ofNat (n + 1)

/-- Comparison by code points, shorter first when one text begins with the other. -/
def compare : Text → Text → Ordering
  | [], [] => .eq
  | [], _ :: _ => .lt
  | _ :: _, [] => .gt
  | a :: s, b :: t => if a.toNat < b.toNat then .lt else if b.toNat < a.toNat then .gt else compare s t

/-- At most as large as another text, by code points. -/
def le (s t : Text) : Bool := (compare s t).isLE

end Text

end TreeShell
