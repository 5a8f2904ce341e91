import TreeShell.Text

/-! Regular expressions. -/
namespace TreeShell

/-- A place between characters that an expression can ask for. -/
inductive Anchor where
  | lineStart
  | lineEnd
  | textStart
  | textEnd
  | wordEdge
  | noWordEdge
  deriving DecidableEq

/-- A class of characters with a name of its own. -/
inductive CharClass where
  | digit
  | blank
  | word
  deriving DecidableEq

/-- A member of a set of characters. -/
inductive SetItem where
  | range (low high : CodePoint)
  | named (which : CharClass) (negated : Bool)
  deriving DecidableEq

/-- How much a repetition takes: as much as possible, as little as possible, or as much as
possible without giving anything back. -/
inductive Greed where
  | greedy
  | lazy
  | possessive
  deriving DecidableEq

/-- A regular expression. A group without a number keeps nothing. -/
inductive Regex where
  | empty
  | char (c : CodePoint)
  | any
  | set (negated : Bool) (items : List SetItem)
  | anchor (which : Anchor)
  | seq (first second : Regex)
  | alt (first second : Regex)
  | group (number : Option Nat) (inner : Regex)
  | reference (number : Nat)
  | loop (least : Nat) (most : Option Nat) (greed : Greed) (inner : Regex)
  | ahead (negated : Bool) (inner : Regex)
  | atomic (inner : Regex)

/-- An expression that has been read, with the number of its groups. -/
structure Pattern where
  regex : Regex
  groups : Nat
  ignoreCase : Bool

/-- What is wrong with an expression, and where. -/
structure RegexError where
  complaint : Text
  position : Nat

/-- The message about an error in a text. Line and column are given when the text has
several lines. -/
def RegexError.message (error : RegexError) (source : Text) : Text :=
  let before := source.take error.position
  let line := before.count (chr '\n') + 1
  let column := (before.reverse.takeWhile (· != chr '\n')).length + 1
  let column := if before.contains (chr '\n') then column else error.position + 1
  error.complaint ++ " at position " ++ Text.ofNat error.position ++
    if source.contains (chr '\n') then
      " (line " ++ Text.ofNat line ++ ", column " ++ Text.ofNat column ++ ")"
    else []

end TreeShell
