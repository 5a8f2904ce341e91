import TreeShell.Fault
import TreeShell.Patch.Hunk

/-! Applying a patch. Replacements are made from the last to the first, so that the
numbers of earlier ones stay right. A replacement whose old lines are not where they should
be is made at the nearest place where they are, the earlier of two. -/
namespace TreeShell.Patch

def occursAt (lines : List Text) (place : Int) (expected : List Text) : Bool :=
  0 ≤ place && place + expected.length ≤ lines.length &&
    (lines.drop place.toNat).take expected.length == expected

/-- The nearest place at a distance of at least `offset`, with `left` distances to try. -/
def searchFrom (lines expected : List Text) (declared : Int) (offset : Nat) :
    (left : Nat) → Option Int
  | 0 => none
  | left + 1 =>
    if occursAt lines (declared - offset) expected then some (declared - offset)
    else if occursAt lines (declared + offset) expected then some (declared + offset)
    else if declared - offset < 0 && lines.length < declared + offset then none
    else searchFrom lines expected declared (offset + 1) left

/-- Where a replacement is made: at its declared place or at the nearest one. -/
def locate? (lines : List Text) (splice : Splice) (maxOffset : Int) : Option Int :=
  let declared := min splice.oldIndex lines.length
  if splice.oldLines.isEmpty then some declared
  else if occursAt lines declared splice.oldLines then some declared
  else searchFrom lines splice.oldLines declared 1 maxOffset.toNat

def replaceAt (lines : List Text) (place : Int) (splice : Splice) : List Text :=
  lines.take place.toNat ++ splice.newLines ++ lines.drop (place.toNat + splice.oldLines.length)

/-- What is said of a replacement that was not made at its declared place. -/
def offsetWarning (number : Nat) (place offset : Int) : Text :=
  "Hunk #" ++ Text.ofNat number ++ " succeeded at " ++ Text.ofInt (place + 1) ++
    " (offset " ++ Text.ofInt offset ++ " lines)"

/-- Makes numbered replacements in order; the warnings are kept also when one fails. -/
def applySplices (maxOffset : Int) : List (Nat × Splice) → List Text →
    List Text × Except Fault (List Text)
  | [], lines => ([], .ok lines)
  | (number, splice) :: rest, lines =>
    match locate? lines splice maxOffset with
    | none => ([], .error (.hunkFailed number (splice.oldIndex + 1)))
    | some place =>
      let (warnings, result) := applySplices maxOffset rest (replaceAt lines place splice)
      if place != splice.oldIndex && !splice.oldLines.isEmpty then
        (offsetWarning number place (place - splice.oldIndex) :: warnings, result)
      else (warnings, result)

/-- The largest distance that a replacement may be moved when none is given. -/
def defaultMaxOffset : Int := 1000

/-- The replacements of hunks with their numbers, in the order in which they are made. -/
def orderedSplices (hunks : List Hunk) (reverse : Bool) : List (Nat × Splice) :=
  let numbered := hunks.zipIdx.map fun (hunk, index) =>
    (index + 1, if reverse then hunk.toSplice.reverse else hunk.toSplice)
  numbered.mergeSort fun a b => b.2.oldIndex ≤ a.2.oldIndex

def apply (lines : List Text) (hunks : List Hunk) (reverse : Bool) (maxOffset : Int) :
    List Text × Except Fault (List Text) :=
  applySplices maxOffset (orderedSplices hunks reverse) lines

end TreeShell.Patch
