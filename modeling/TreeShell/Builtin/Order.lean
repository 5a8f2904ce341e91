import TreeShell.Builtin.Basic
import TreeShell.Number
import TreeShell.Text.Lines
import TreeShell.Text.Lowercase

/-! The commands `sort` and `uniq`. -/
namespace TreeShell.Builtin

open Options

def sortSpec : Spec where
  command := "sort"
  summary := "Sort lines of text"
  switches := [.askHelp, .flag ["-r", "--reverse"] "Reverse the result of comparisons",
    .flag ["-n", "--numeric-sort"] "Compare by numeric value",
    .flag ["-u", "--unique"] "Output only the first of equal lines",
    .flag ["-f", "--ignore-case"] "Fold lower case to upper case"]
  operands := [⟨"files", .many, "Files to sort"⟩]

/-- What lines are ordered by: a number, which is zero unless numbers are compared, and
then a text. -/
abbrev SortKey := Int × Text

def SortKey.le (a b : SortKey) : Bool :=
  a.1 < b.1 || (a.1 == b.1 && Text.le a.2 b.2)

def sortKey (numeric ignoreCase : Bool) (line : Text) : SortKey :=
  if numeric then (Number.ofLine line, line)
  else (0, if ignoreCase then Text.lower line else line)

/-- Orders lines by their keys; lines with equal keys stay in order, also in reverse. -/
def sortLines (key : Text → SortKey) (reverse : Bool) (lines : List Text) : List Text :=
  let keyed := lines.map fun line => (key line, line)
  let sorted :=
    if reverse then keyed.mergeSort fun a b => SortKey.le b.1 a.1
    else keyed.mergeSort fun a b => SortKey.le a.1 b.1
  sorted.map Prod.snd

/-- The first of the lines that are marked alike, `seen` being the marks so far. -/
def firstOfEach (mark : Text → Text) (seen : List Text) : List Text → List Text
  | [] => []
  | line :: rest =>
    if seen.contains (mark line) then firstOfEach mark seen rest
    else line :: firstOfEach mark (mark line :: seen) rest

def foldCase (ignoreCase : Bool) (line : Text) : Text :=
  if ignoreCase then Text.lower line else line

def sort : Command := filter sortSpec fun arguments stdin => do
  let found ← inputs "sort" (arguments.words "files") stdin
  let ignoreCase := arguments.isOn "-f"
  let lines := sortLines (sortKey (arguments.isOn "-n") ignoreCase) (arguments.isOn "-r")
    (found.flatMap fun (_, content) => Text.lines content)
  return Text.joinLines
    (if arguments.isOn "-u" then firstOfEach (foldCase ignoreCase) [] lines else lines)

def uniqSpec : Spec where
  command := "uniq"
  summary := "Omit repeated adjacent lines"
  switches := [.askHelp, .flag ["-c", "--count"] "Prefix lines by the number of occurrences",
    .flag ["-d", "--repeated"] "Only print duplicate lines",
    .flag ["-i", "--ignore-case"] "Ignore differences in case"]
  operands := [⟨"file", .optional, "Input file"⟩]

/-- The first line of every run of lines that are marked alike, and the length of the run. -/
def runs (mark : Text → Text) : List Text → List (Text × Nat)
  | [] => []
  | line :: rest =>
    match runs mark rest with
    | [] => [(line, 1)]
    | (next, count) :: later =>
      if mark next = mark line then (line, count + 1) :: later
      else (line, 1) :: (next, count) :: later

def uniq : Command := filter uniqSpec fun arguments stdin => do
  let found ← inputs "uniq" (named (arguments.word? "file")) stdin
  let lines := found.flatMap fun (_, content) => Text.lines content
  let counted := runs (foldCase (arguments.isOn "-i")) lines
  let shown := counted.filter fun (_, count) => !arguments.isOn "-d" || count > 1
  return Text.joinLines (shown.map fun (line, count) =>
    if arguments.isOn "-c" then (Text.ofNat count).padStart 7 ++ chr ' ' :: line else line)

end TreeShell.Builtin
