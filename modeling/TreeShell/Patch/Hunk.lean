import TreeShell.Text.Blank

/-! The hunks of a patch in their three written forms, and the replacement that each one
stands for. -/
namespace TreeShell.Patch

/-- What a line of a hunk says of its text. -/
inductive LineKind where
  | context
  | add
  | delete
  deriving DecidableEq

structure HunkLine where
  kind : LineKind
  text : Text
  deriving DecidableEq

/-- What a hunk in the normal form does. -/
inductive Action where
  | add
  | delete
  | change
  deriving DecidableEq

/-- A hunk in one of the three forms. -/
inductive Hunk where
  | unified (oldStart oldCount newStart newCount : Nat) (lines : List HunkLine)
  | normal (action : Action) (oldStart oldEnd newStart newEnd : Nat) (old new : List Text)
  | context (oldStart oldEnd newStart newEnd : Nat) (old new : List HunkLine)
  deriving DecidableEq

/-- A replacement: the old lines at the old index by the new lines, which then stand at the
new index. -/
structure Splice where
  oldIndex : Int
  oldLines : List Text
  newIndex : Int
  newLines : List Text
  deriving DecidableEq

/-- The replacement that undoes another. -/
def Splice.reverse (splice : Splice) : Splice :=
  ⟨splice.newIndex, splice.newLines, splice.oldIndex, splice.oldLines⟩

/-- The index of a line number. The number of an empty side is that of the line before. -/
def indexOf (start : Nat) (lines : List Text) : Int :=
  if lines.isEmpty then start else start - 1

def Splice.ofLines (oldStart newStart : Nat) (old new : List Text) : Splice :=
  ⟨indexOf oldStart old, old, indexOf newStart new, new⟩

def textsWithout (kind : LineKind) (lines : List HunkLine) : List Text :=
  (lines.filter (·.kind != kind)).map HunkLine.text

def contextOnly (lines : List HunkLine) : List HunkLine := lines.filter (·.kind == .context)

/-- The replacement that a hunk stands for. A side that a hunk in the context form leaves
out has the lines of context of the other side. -/
def Hunk.toSplice : Hunk → Splice
  | .unified oldStart _ newStart _ lines =>
    .ofLines oldStart newStart (textsWithout .add lines) (textsWithout .delete lines)
  | .normal _ oldStart _ newStart _ old new => .ofLines oldStart newStart old new
  | .context oldStart _ newStart _ old new =>
    let old := if old.isEmpty then contextOnly new else old
    let new := if new.isEmpty then contextOnly old else new
    .ofLines oldStart newStart (old.map HunkLine.text) (new.map HunkLine.text)

/-- The part of a patch that concerns one file. -/
structure Section where
  source : Option Text
  target : Option Text
  hunks : List Hunk
  deriving DecidableEq

def headerMarks : List Text := ["--- ", "+++ ", "*** "]

/-- The file name in a header: without mark, without what follows a tab, without blanks
around it, without quotes around that. -/
def fileName (header : Text) : Text :=
  let body := (headerMarks.findSome? fun mark => Text.dropStart? mark header).getD header
  let name := Text.strip (body.takeWhile (· != '\t'))
  match name with
  | quote :: rest =>
    if (quote == '\'' || quote == '"') && rest.getLast? == some quote then rest.dropLast else name
  | [] => name

/-- A file name without its first components; the last one is always kept. -/
def stripComponents (name : Text) (count : Int) : Text :=
  if count ≤ 0 then name
  else
    let parts := name.splitOn (chr '/')
    if parts.length ≤ count then parts.getLastD [] else Text.join [chr '/'] (parts.drop count.toNat)

end TreeShell.Patch
