import TreeShell.Text.Blank
import TreeShell.Text.Lowercase

/-! What counts as equal when lines are compared: case, blanks and blank lines can be
ignored. -/
namespace TreeShell.Diff

structure Comparison where
  ignoreCase : Bool
  ignoreAllSpace : Bool
  ignoreSpaceChange : Bool
  ignoreBlankLines : Bool
  deriving DecidableEq

namespace Comparison

/-- Every difference counts. -/
def exact : Comparison := ⟨false, false, false, false⟩

def normalize (options : Comparison) (line : Text) : Text :=
  let line := if options.ignoreCase then Text.lower line else line
  if options.ignoreAllSpace then Text.squeezeBlanks [] false line
  else if options.ignoreSpaceChange then Text.strip (Text.squeezeBlanks [chr ' '] false line)
  else line

def counts (options : Comparison) (line : Text) : Bool :=
  !(options.ignoreBlankLines && Text.allBlank line)

/-- The lines that take part, normalized, each with its place among all lines from `place` on. -/
def viewFrom (options : Comparison) (place : Nat) : List Text → List (Text × Nat)
  | [] => []
  | line :: rest =>
    if options.counts line then
      (options.normalize line, place) :: options.viewFrom (place + 1) rest
    else options.viewFrom (place + 1) rest

/-- The lines that take part, normalized, each with its place. -/
def view (options : Comparison) (lines : List Text) : List (Text × Nat) :=
  options.viewFrom 0 lines

/-- The lines that take part, normalized. -/
def compared (options : Comparison) (lines : List Text) : List Text :=
  (options.view lines).map Prod.fst

end Comparison

end TreeShell.Diff
