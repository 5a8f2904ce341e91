import TreeShell.Diff.EditScript

/-! Hunks: the parts of an edit script that are shown, with lines of context around the
changes. Changes that consist of ignored blank lines only are not shown by themselves. -/
namespace TreeShell.Diff

/-- A range of edits, the end excluded. -/
structure Range where
  start : Nat
  stop : Nat
  deriving DecidableEq

def Range.slice (range : Range) (edits : List Edit) : List Edit :=
  (edits.drop range.start).take (range.stop - range.start)

/-- The maximal ranges without common lines; `opened` is the start of the range at hand. -/
def changesFrom (opened : Option Nat) (index : Nat) : List Edit → List Range
  | [] => match opened with
    | some start => [⟨start, index⟩]
    | none => []
  | edit :: rest =>
    if edit.isCommon then
      match opened with
      | some start => ⟨start, index⟩ :: changesFrom none (index + 1) rest
      | none => changesFrom none (index + 1) rest
    else changesFrom (some (opened.getD index)) (index + 1) rest

def changes (edits : List Edit) : List Range := changesFrom none 0 edits

def reportedChanges (edits : List Edit) : List Range :=
  (changes edits).filter fun range => !(range.slice edits).all Edit.isBlank

/-- The number of the last old and new line before an edit, zero when there is none. -/
def linesBefore (edits : List Edit) (index : Nat) : Nat × Nat :=
  let before := edits.take index
  let number (places : List Nat) : Nat := match places.getLast? with
    | some place => place + 1
    | none => 0
  (number (before.filterMap Edit.old?), number (before.filterMap Edit.new?))

/-- A hunk: its edits, and on each side the number of its first line and how many lines it
has. A side without lines has the number of the line before it. -/
structure Hunk where
  range : Range
  oldFirst : Nat
  oldCount : Nat
  newFirst : Nat
  newCount : Nat
  deriving DecidableEq

def Hunk.covering (edits : List Edit) (range : Range) : Hunk :=
  let olds := (range.slice edits).filterMap Edit.old?
  let news := (range.slice edits).filterMap Edit.new?
  let (oldBefore, newBefore) := linesBefore edits range.start
  let first (places : List Nat) (before : Nat) : Nat := match places with
    | place :: _ => place + 1
    | [] => before
  ⟨range, first olds oldBefore, olds.length, first news newBefore, news.length⟩

def joinFrom (gap : Nat) (current : Range) : List Range → List Range
  | [] => [current]
  | next :: rest =>
    if next.start - current.stop ≤ gap then joinFrom gap ⟨current.start, next.stop⟩ rest
    else current :: joinFrom gap next rest

/-- The hunks of a script with lines of context; a negative context counts as none. -/
def hunks (edits : List Edit) (context : Int) : List Hunk :=
  let context := context.toNat
  match reportedChanges edits with
  | [] => []
  | first :: rest =>
    (joinFrom (2 * context) first rest).map fun range =>
      Hunk.covering edits ⟨range.start - context, min edits.length (range.stop + context)⟩

end TreeShell.Diff
