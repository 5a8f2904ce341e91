import TreeShell.Line.Lexeme

/-! Segments: the commands of a line with the operators that join them. -/
namespace TreeShell

/-- How a segment is joined to the one after it. -/
inductive Joint where
  | pipe
  | and
  | or
  | sequence
  /-- The line ends here. -/
  | close
  deriving DecidableEq

def Operator.joint? : Operator → Option Joint
  | .pipe => some .pipe
  | .and => some .and
  | .or => some .or
  | .sequence => some .sequence
  | .redirect _ | .mergeErrors => none

def Word.joint? (w : Word) : Option Joint := w.operator? >>= Operator.joint?

/-- A command with its redirections, what follows it, and the body that it reads when it
was written with one. -/
structure Segment where
  joint : Joint
  command : List Word
  body : Option Text
  deriving DecidableEq

namespace Segment

/-- Groups words into segments; `current` holds the words of the segment at hand, last one
first. A joint without words before it is dropped. -/
def groupFrom (current : List Word) : List Word → List Segment
  | [] => if current.isEmpty then [] else [⟨.close, current.reverse, none⟩]
  | w :: rest =>
    match w.joint? with
    | some joint =>
      if current.isEmpty then groupFrom [] rest
      else ⟨joint, current.reverse, none⟩ :: groupFrom [] rest
    | none => groupFrom (w :: current) rest

/-- Nothing follows the last segment, whatever operator stood behind it. -/
def closeLast : List Segment → List Segment
  | [] => []
  | [last] => [{ last with joint := .close }]
  | first :: second :: rest => first :: closeLast (second :: rest)

def group (words : List Word) : List Segment := closeLast (groupFrom [] words)

def ofLine (line : Text) : Except Fault (List Segment) := (lineWords line).map group

end Segment

end TreeShell
