import TreeShell.Builtin.Basic
import TreeShell.Diff.Render
import TreeShell.Patch.Apply
import TreeShell.Patch.Reader
import TreeShell.Text.Lines

/-! The commands `diff` and `patch`. A difference is an output and no failure. -/
namespace TreeShell.Builtin

open Options

def diffSpec : Spec where
  command := "diff"
  summary := "Compare files line by line"
  switches := [.askHelp, .flag ["-u", "--unified"] "Output 3 lines of unified context",
    ⟨["-U"], .integer "NUM", "Output NUM lines of unified context"⟩,
    .flag ["-c"] "Output 3 lines of copied context",
    ⟨["-C", "--context"], .integer "NUM", "Output NUM lines of copied context"⟩,
    .flag ["-q", "--brief"] "Report only when files differ",
    .flag ["-i", "--ignore-case"] "Ignore case differences",
    .flag ["-w", "--ignore-all-space"] "Ignore all white space",
    .flag ["-b", "--ignore-space-change"] "Ignore changes in the amount of white space",
    .flag ["-B", "--ignore-blank-lines"] "Ignore changes whose lines are all blank"]
  operands := [⟨"file1", .one, "First file to compare"⟩,
    ⟨"file2", .one, "Second file to compare"⟩]

/-- A number that is attached to a switch for context, as a switch and a word of its own. -/
def detachCount (word : Text) : List Text :=
  match word with
  | '-' :: letter :: digits =>
    if (letter == 'u' || letter == 'c') && !digits.isEmpty && digits.all Text.isDecimalDigit then
      [[chr '-', if letter == 'u' then chr 'U' else chr 'C'], digits]
    else [word]
  | _ => [word]

def detachCounts (words : List Text) : List Text :=
  (words.takeWhile (· != separatorWord)).flatMap detachCount ++
    words.dropWhile (· != separatorWord)

/-- The lines of context that switches ask for; of several switches the last one counts. -/
def contextCount? (arguments : Arguments) (keys : List Text) : Option Int :=
  (arguments.settings.filterMap fun (key, value) =>
    if keys.contains key then
      match value with
      | .integer n => some n
      | _ => some Diff.defaultContext
    else none).getLast?

def diffOptions (arguments : Arguments) : Diff.Options :=
  let comparison : Diff.Comparison := ⟨arguments.isOn "-i", arguments.isOn "-w",
    arguments.isOn "-b", arguments.isOn "-B"⟩
  let brief := arguments.isOn "-q"
  match contextCount? arguments ["-u", "-U"], contextCount? arguments ["-c", "-C"] with
  | some count, _ => ⟨comparison, .unified, count, brief⟩
  | none, some count => ⟨comparison, .context, count, brief⟩
  | none, none => ⟨comparison, .normal, Diff.defaultContext, brief⟩

/-- The lines of one side of a comparison. A dash stands for what is piped. -/
def diffSide (stdin : Option Text) (path : Text) : Action (List Text) := do
  if path == [chr '-'] then
    match stdin with
    | some content => return Text.lines content
    | none => throw (.missingOperand "diff" "-: no standard input")
  else return Text.lines (← readFile "diff" path)

def diff : Command := prepared diffSpec true detachCounts fun arguments stdin => do
  let first := arguments.word "file1"
  let second := arguments.word "file2"
  let old ← diffSide stdin first
  let new ← diffSide stdin second
  return Diff.diffTexts (diffOptions arguments) old new first second

def patchSpec : Spec where
  command := "patch"
  summary := "Apply a diff file to an original"
  switches := [.askHelp,
    ⟨["-p", "--strip"], .integer "NUM", "Strip NUM leading components from file names"⟩,
    .flag ["-R", "--reverse"] "Assume patches were created with old and new swapped",
    ⟨["-o", "--output"], .text "FILE", "Write the result to FILE instead of patching in place"⟩,
    ⟨["-i", "--input"], .text "PATCHFILE", "Read the patch from PATCHFILE instead of stdin"⟩]
  operands := [⟨"file", .optional, "File to patch (default: taken from the patch headers)"⟩]

/-- Whether a part of a patch has no old lines, so that it can create its file. -/
def createsFile (hunks : List Patch.Hunk) (reverse : Bool) : Bool :=
  hunks.all fun hunk =>
    (if reverse then hunk.toSplice.newLines else hunk.toSplice.oldLines).isEmpty

/-- The name that a header gives to a file that is not there. -/
def noFile : Text := "/dev/null"

/-- The file that a part of a patch concerns: the first of its names that is a file, or the
first name when the part creates it. -/
def patchTarget (v : Volume) (strip : Int) (reverse : Bool) (part : Patch.Section) :
    Except Fault Text :=
  let names := if reverse then [part.source, part.target] else [part.target, part.source]
  let candidates := (names.filterMap id).filter (fun name => !name.isEmpty && name != noFile)
    |>.map (Patch.stripComponents · strip)
  match candidates.find? fun name => (v.resolve? name).any v.isFile with
  | some name => .ok name
  | none =>
    match candidates with
    | name :: _ =>
      if createsFile part.hunks reverse then .ok name
      else .error (.refused "patch: cannot determine file to patch")
    | [] => .error (.refused "patch: cannot determine file to patch")

/-- The content of a file after hunks have been applied to it; a missing file is empty. -/
def patchedContent (hunks : List Patch.Hunk) (reverse : Bool) (path : Text) : Action Text := do
  let v ← Action.volume
  let content ← match v.resolve? path with
    | none => pure []
    | some _ => readFile "patch" path
  let (warnings, result) := Patch.apply (Text.lines content) hunks reverse Patch.defaultMaxOffset
  warnings.forM Action.warn
  let patched := Text.joinLines (← Action.ofExcept result)
  return if content.getLast? = some (chr '\n') && !patched.isEmpty then patched ++ [chr '\n'] else patched

/-- Patches one file, writing the result to another place if asked. -/
def patchFile (output : List Text) (reverse : Bool) (work : Text × List Patch.Hunk) :
    Action Text := do
  let (path, hunks) := work
  let content ← patchedContent hunks reverse path
  let target := output.headD path
  let _ ← Action.within "patch" (Action.changePartly fun v now => v.writeFile now target content false)
  let moved : Text := if target = path then [] else " to " ++ target
  return "patched " ++ path ++ moved

def patchText (arguments : Arguments) (stdin : Option Text) : Action Text :=
  match named (arguments.text? "-i"), stdin with
  | path :: _, _ => readFile "patch" path
  | [], some content => return content
  | [], none => throw (.missingOperand "patch" "missing patch input (use -i or stdin)")

def patch : Command := filter patchSpec fun arguments stdin => do
  let sections ← Action.ofExcept (Patch.parse (← patchText arguments stdin))
  let reverse := arguments.isOn "-R"
  let strip := (arguments.integer? "-p").getD 0
  let work ← match named (arguments.word? "file") with
    | path :: _ => pure [(path, sections.flatMap Patch.Section.hunks)]
    | [] => Action.ask fun v => sections.mapM fun part => do
      return (← patchTarget v strip reverse part, part.hunks)
  let output := named (arguments.text? "-o")
  if !output.isEmpty && work.length > 1 then
    throw (.refused "patch: -o requires a patch for a single file")
  return Text.joinLines (← work.mapM (patchFile output reverse))

end TreeShell.Builtin
