import TreeShell.Fault
import TreeShell.Patch.Hunk
import TreeShell.Text.Integer
import TreeShell.Text.Quoted

/-! Reading a patch. Lines that belong to no hunk are passed over; a hunk that has begun
has to be what its head says. The readers of a hunk give back the lines after it. The numbers
of a head are read at any length: the limit that numbers of options have is left out, since a
written patch keeps its numbers below the count of its lines and comes nowhere near it. -/
namespace TreeShell.Patch

def number? (t : Text) : Option (Nat × Text) :=
  let digits := t.takeWhile Text.isDecimalDigit
  if digits.isEmpty then none
  else (Text.digits? digits).map fun n => (n, t.dropWhile Text.isDecimalDigit)

/-- Reads a number and, after a comma, another one. -/
def range? (t : Text) : Option (Nat × Option Nat × Text) := do
  let (first, rest) ← number? t
  match rest with
  | ',' :: more =>
    match number? more with
    | some (second, rest) => return (first, some second, rest)
    | none => return (first, none, rest)
  | _ => return (first, none, rest)

/-- The head of a hunk in the unified form: starts and counts; a missing count is one. -/
def unifiedHead? (line : Text) : Option (Nat × Nat × Nat × Nat) := do
  let rest ← Text.dropStart? "@@ -" line
  let (oldStart, oldCount, rest) ← range? rest
  let rest ← Text.dropStart? " +" rest
  let (newStart, newCount, rest) ← range? rest
  let _ ← Text.dropStart? " @@" rest
  return (oldStart, oldCount.getD 1, newStart, newCount.getD 1)

/-- The head of a hunk in the normal form: action, starts and ends. -/
def normalHead? (line : Text) : Option (Action × Nat × Nat × Nat × Nat) := do
  let (oldStart, oldEnd, rest) ← range? line
  let (action, rest) ← match rest with
    | 'a' :: rest => some (Action.add, rest)
    | 'd' :: rest => some (Action.delete, rest)
    | 'c' :: rest => some (Action.change, rest)
    | _ => none
  let (newStart, newEnd, rest) ← range? rest
  if rest.isEmpty then
    return (action, oldStart, oldEnd.getD oldStart, newStart, newEnd.getD newStart)
  else none

def isContextSeparator (line : Text) : Bool := (List.replicate 15 (chr '*')).isPrefixOf line

/-- The head of one side of a hunk in the context form: first and last line. -/
def contextHead? (before after line : Text) : Option (Nat × Nat) := do
  let rest ← Text.dropStart? before line
  let (first, last, rest) ← range? rest
  let rest ← Text.dropStart? after rest
  if Text.allBlank rest then return (first, last.getD first) else none

/-- The head of the old side of a hunk in the context form. -/
def contextOldHead? (line : Text) : Option (Nat × Nat) := contextHead? "*** " " ****" line

/-- The head of the new side of a hunk in the context form. -/
def contextNewHead? (line : Text) : Option (Nat × Nat) := contextHead? "--- " " ----" line

def isRemark (line : Text) : Bool := line.head? == some (chr '\\')

/-- The number of the line that stands first in `rest`, counted from zero. -/
def place (total : Nat) (rest : List Text) : Nat := total - rest.length

/-- The body of a hunk in the unified form, with lines left to read on each side. -/
def unifiedBody (total oldLeft newLeft : Nat) :
    List Text → Except Fault (List HunkLine × List Text)
  | [] =>
    if oldLeft = 0 && newLeft = 0 then .ok ([], [])
    else .error (.malformedPatch ("unexpected end of hunk at line " ++ Text.ofNat total ++
      " (expected " ++ Text.ofNat oldLeft ++ " old / " ++ Text.ofNat newLeft ++ " new lines)"))
  | line :: rest =>
    if oldLeft = 0 && newLeft = 0 then .ok ([], line :: rest)
    else if isRemark line then unifiedBody total oldLeft newLeft rest
    else
      let text := line.drop 1
      match line.headD (chr ' '), oldLeft, newLeft with
      | ' ', old + 1, new + 1 => do
        let (lines, rest) ← unifiedBody total old new rest
        return (⟨.context, text⟩ :: lines, rest)
      | '-', old + 1, new => do
        let (lines, rest) ← unifiedBody total old new rest
        return (⟨.delete, text⟩ :: lines, rest)
      | '+', old, new + 1 => do
        let (lines, rest) ← unifiedBody total old new rest
        return (⟨.add, text⟩ :: lines, rest)
      | _, _, _ =>
        .error (.malformedPatch ("malformed hunk line " ++
          Text.ofNat (place total (line :: rest) + 1) ++ ": " ++ Text.quoted line))

/-- Reads a hunk in the unified form after its head, remarks behind it included. -/
def readUnified (total : Nat) (head : Nat × Nat × Nat × Nat) (rest : List Text) :
    Except Fault (Hunk × List Text) := do
  let (oldStart, oldCount, newStart, newCount) := head
  let (lines, rest) ← unifiedBody total oldCount newCount rest
  return (.unified oldStart oldCount newStart newCount lines, rest.dropWhile isRemark)

/-- The lines that begin with a mark, without the mark and the character after it. -/
def marked (mark : CodePoint) (lines : List Text) : List Text :=
  (lines.takeWhile (·.head? == some mark)).map (·.drop 2)

def afterMarked (mark : CodePoint) (lines : List Text) : List Text :=
  lines.dropWhile (·.head? == some mark)

/-- Reads a hunk in the normal form after its head, which is `line`. -/
def readNormal (line : Text) (head : Action × Nat × Nat × Nat × Nat) (rest : List Text) :
    Except Fault (Hunk × List Text) :=
  let (action, oldStart, oldEnd, newStart, newEnd) := head
  let old := marked (chr '<') rest
  let rest := afterMarked (chr '<') rest
  let rest := if rest.head? == some "---" then rest.tail else rest
  let new := marked (chr '>') rest
  let rest := afterMarked (chr '>') rest
  let expectedOld : Int := if action = .add then 0 else oldEnd - oldStart + 1
  let expectedNew : Int := if action = .delete then 0 else newEnd - newStart + 1
  if old.length = expectedOld && new.length = expectedNew then
    .ok (.normal action oldStart oldEnd newStart newEnd old new, rest)
  else .error (.malformedPatch ("malformed normal hunk '" ++ line ++ "'"))

/-- A line of a hunk in the context form; `changed` is what a changed line counts as. -/
def contextLine? (changed : LineKind) (line : Text) : Option HunkLine :=
  if (contextNewHead? line).isSome || isContextSeparator line then none
  else match line with
    | ' ' :: ' ' :: text => some ⟨.context, text⟩
    | '-' :: ' ' :: text => some ⟨.delete, text⟩
    | '+' :: ' ' :: text => some ⟨.add, text⟩
    | '!' :: ' ' :: text => some ⟨changed, text⟩
    | _ => none

def contextBlock (changed : LineKind) : List Text → List HunkLine × List Text
  | [] => ([], [])
  | line :: rest =>
    match contextLine? changed line with
    | some found =>
      let (block, rest) := contextBlock changed rest
      (found :: block, rest)
    | none => ([], line :: rest)

/-- Reads a hunk in the context form after the head of its old side. -/
def readContext (total : Nat) (oldHead : Nat × Nat) (rest : List Text) :
    Except Fault (Hunk × List Text) :=
  let (old, rest) := contextBlock .delete rest
  match contextNewHead? (rest.headD []) with
  | none => .error (.malformedPatch ("missing '--- ' block in context hunk at line " ++
      Text.ofNat (place total rest + 1)))
  | some newHead =>
    let (new, rest) := contextBlock .add rest.tail
    .ok (.context oldHead.1 oldHead.2 newHead.1 newHead.2 old new, rest)

/-- What stands first in the rest of a patch. -/
inductive Item where
  | hunk (found : Hunk)
  | names (source target : Text)
  | nothing

/-- Reads what stands first, and gives the lines after it. The head of a hunk is looked for
before the names of files, and those before the short heads of the normal form. -/
def readItem (total : Nat) (line : Text) (rest : List Text) : Except Fault (Item × List Text) :=
  let following := rest.headD []
  match unifiedHead? line with
  | some head => (readUnified total head rest).map fun (hunk, rest) => (.hunk hunk, rest)
  | none =>
    match (if isContextSeparator line then contextOldHead? following else none) with
    | some head => (readContext total head rest.tail).map fun (hunk, rest) => (.hunk hunk, rest)
    | none =>
      if ("--- " : Text).isPrefixOf line && ("+++ " : Text).isPrefixOf following ||
          ("*** " : Text).isPrefixOf line && ("--- " : Text).isPrefixOf following &&
            (contextOldHead? line).isNone then
        .ok (.names (fileName line) (fileName following), rest.tail)
      else match normalHead? line with
        | some head => (readNormal line head rest).map fun (hunk, rest) => (.hunk hunk, rest)
        | none => .ok (.nothing, rest)

def Section.kept (part : Section) : List Section := if part.hunks.isEmpty then [] else [part]

/-- Reads the sections of the rest of a patch; `current` is the section at hand, and
`bound` is at least the number of lines. -/
def sectionsFrom (total : Nat) : (bound : Nat) → (current : Section) → List Text →
    Except Fault (List Section)
  | 0, current, _ => .ok current.kept
  | _ + 1, current, [] => .ok current.kept
  | bound + 1, current, line :: rest => do
    let (item, rest) ← readItem total line rest
    match item with
    | .hunk found => sectionsFrom total bound { current with hunks := current.hunks ++ [found] } rest
    | .names source target =>
      return current.kept ++ (← sectionsFrom total bound ⟨some source, some target, []⟩ rest)
    | .nothing => sectionsFrom total bound current rest

/-- The lines of a patch, without carriage returns at their ends. -/
def patchLines (t : Text) : List Text := (t.splitOn (chr '\n')).map (Text.dropFinal (chr '\r'))

/-- The sections of a patch; there is at least one. -/
def parse (t : Text) : Except Fault (List Section) := do
  let lines := patchLines t
  let sections ← sectionsFrom lines.length lines.length ⟨none, none, []⟩ lines
  if sections.isEmpty then throw .noPatch
  return sections

/-- The hunks of all sections under the names of the first. -/
def joinSections (sections : List Section) : Section :=
  match sections with
  | [] => ⟨none, none, []⟩
  | first :: _ => ⟨first.source, first.target, sections.flatMap Section.hunks⟩

end TreeShell.Patch
