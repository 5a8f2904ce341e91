import TreeShell.Diff.Comparison

/-! Edit scripts: how one list of lines becomes another, with as many common lines as
possible. The script is found in a table over the ends of both lists; a cell holds the
number of common lines and the edits that lead there, the last edit first. Among equally
good scripts the one whose last edit is an addition is taken, so that in a change the
deletions come before the additions. -/
namespace TreeShell.Diff

/-- One edit. Numbers are places in the old and in the new list; `blank` marks a line that
was left out of the comparison. -/
inductive Edit where
  | common (old new : Nat)
  | delete (old : Nat) (blank : Bool)
  | add (new : Nat) (blank : Bool)
  deriving DecidableEq

namespace Edit

def isCommon : Edit → Bool
  | .common .. => true
  | _ => false

def isDelete : Edit → Bool
  | .delete .. => true
  | _ => false

def isAdd : Edit → Bool
  | .add .. => true
  | _ => false

/-- Whether the edit concerns a line that was left out of the comparison. -/
def isBlank : Edit → Bool
  | .common .. => false
  | .delete _ blank => blank
  | .add _ blank => blank

def old? : Edit → Option Nat
  | .common old _ => some old
  | .delete old _ => some old
  | .add .. => none

def new? : Edit → Option Nat
  | .common _ new => some new
  | .delete .. => none
  | .add new _ => some new

def relocate (old new : Nat → Nat) : Edit → Edit
  | .common i j => .common (old i) (new j)
  | .delete i blank => .delete (old i) blank
  | .add j blank => .add (new j) blank

end Edit

section Table

variable {α : Type} [DecidableEq α]

/-- A cell of the table: the number of common lines, and the edits with the last one first. -/
structure Cell where
  commons : Nat
  edits : List Edit

/-- The first cell of a row; rows are not empty. -/
def top (row : List Cell) : Cell := row.headD ⟨0, []⟩

/-- The cells for an exhausted old list, for every remainder of the new one. -/
def firstRow : List α → List Cell
  | [] => [⟨0, []⟩]
  | _ :: ys =>
    let row := firstRow ys
    ⟨0, .add ys.length false :: (top row).edits⟩ :: row

/-- The cells for an old list whose last line is `x` and stands at `place`; `above` holds
the cells without that line. -/
def nextRow (x : α) (place : Nat) : List α → (above : List Cell) → List Cell
  | [], above => [⟨0, .delete place false :: (top above).edits⟩]
  | y :: ys, above =>
    let row := nextRow x place ys above.tail
    let left := top row
    let up := top above
    let cell : Cell :=
      if x = y then
        let corner := top above.tail
        ⟨corner.commons + 1, .common place ys.length :: corner.edits⟩
      else if up.commons ≤ left.commons then ⟨left.commons, .add ys.length false :: left.edits⟩
      else ⟨up.commons, .delete place false :: up.edits⟩
    cell :: row

/-- The cells for an old list, given from its end, and every remainder of the new one. -/
def rowFor : List α → List α → List Cell
  | [], ys => firstRow ys
  | x :: xs, ys => nextRow x xs.length ys (rowFor xs ys)

def sharedLength : List α → List α → Nat
  | x :: xs, y :: ys => if x = y then sharedLength xs ys + 1 else 0
  | _, _ => 0

/-- The edit script from `a` to `b`. Lines shared at the beginning and at the end are
matched at once, the rest goes through the table. -/
def script (a b : List α) : List Edit :=
  let lead := sharedLength a b
  let backA := (a.drop lead).reverse
  let backB := (b.drop lead).reverse
  let trail := sharedLength backA backB
  let middle := (top (rowFor (backA.drop trail) (backB.drop trail))).edits.reverse
  (List.range lead).map (fun k => .common k k) ++
    middle.map (Edit.relocate (lead + ·) (lead + ·)) ++
    (List.range trail).map fun k => .common (a.length - trail + k) (b.length - trail + k)

end Table

/-- The edits for lines that were left out of the comparison: facing lines are common, the
others are deleted or added. -/
def fill (old new oldEnd newEnd : Nat) : List Edit :=
  let facing := min (oldEnd - old) (newEnd - new)
  (List.range facing).map (fun k => .common (old + k) (new + k)) ++
    (List.range (oldEnd - old - facing)).map (fun k => .delete (old + facing + k) true) ++
    (List.range (newEnd - new - facing)).map fun k => .add (new + facing + k) true

/-- The number of places from `start` on that are not among `kept`, before `total`. -/
def leftOut (kept : List Nat) (total start : Nat) : Nat :=
  ((List.range (total - start)).takeWhile fun k => !kept.contains (start + k)).length

/-- Puts the lines that were left out back into a script; `old` and `new` are the places
that come next. -/
def restoreFrom (keptOld keptNew : List Nat) (oldTotal newTotal old new : Nat) :
    List Edit → List Edit
  | [] => fill old new oldTotal newTotal
  | edit :: rest =>
    let (oldEnd, newEnd) : Nat × Nat := match edit with
      | .common i j => (i, j)
      | .delete i _ => (i, new + min (i - old) (leftOut keptNew newTotal new))
      | .add j _ => (old + min (j - new) (leftOut keptOld oldTotal old), j)
    let (oldNext, newNext) : Nat × Nat := match edit with
      | .common i j => (i + 1, j + 1)
      | .delete i _ => (i + 1, max new newEnd)
      | .add j _ => (max old oldEnd, j + 1)
    fill old new oldEnd newEnd ++
      edit :: restoreFrom keptOld keptNew oldTotal newTotal oldNext newNext rest

/-- The edit script between two lists of lines under a comparison. Places are those of the
lines as they were given. -/
def editScript (options : Comparison) (a b : List Text) : List Edit :=
  let placesA := (options.view a).map Prod.snd
  let placesB := (options.view b).map Prod.snd
  let edits := (script (options.compared a) (options.compared b)).map
    (Edit.relocate (fun i => placesA.getD i 0) (fun j => placesB.getD j 0))
  if options.ignoreBlankLines then restoreFrom placesA placesB a.length b.length 0 0 edits
  else edits

/-- Whether a script changes nothing. -/
def isIdentity (edits : List Edit) : Bool := edits.all Edit.isCommon

end TreeShell.Diff
