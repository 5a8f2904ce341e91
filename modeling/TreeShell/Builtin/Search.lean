import TreeShell.Builtin.Basic
import TreeShell.Pattern.Glob
import TreeShell.Regex.Matcher
import TreeShell.Regex.Reader
import TreeShell.Text.Lines
import TreeShell.Volume.Walk

/-! The commands that search: `grep` in the lines of files, `find` among the names of a tree. -/
namespace TreeShell.Builtin

open Options

/-- What `grep` understands. The short switch for help means something else here. -/
def grepSpec : Spec where
  command := "grep"
  summary := "Search for patterns in files"
  switches := [⟨["--help"], .help, "Show this help message and exit"⟩,
    ⟨["-e", "--regexp"], .text "PATTERNS", "Pattern to search for"⟩,
    .flag ["-i", "--ignore-case"] "Ignore case distinctions",
    .flag ["-n", "--line-number"] "Prefix output with line numbers",
    .flag ["-v", "--invert-match"] "Select non-matching lines",
    .flag ["-h", "--no-filename"] "Suppress file name prefixes",
    ⟨["-A", "--after-context"], .integer "NUM", "Print NUM lines of trailing context"⟩,
    ⟨["-B", "--before-context"], .integer "NUM", "Print NUM lines of leading context"⟩,
    ⟨["-C", "--context"], .integer "NUM", "Print NUM lines of output context"⟩,
    .recursive "Search directories recursively"]
  operands := [⟨"rest", .many, "PATTERN [FILE...]"⟩]

/-- How `grep` searches and what it shows. -/
structure GrepOptions where
  patterns : List Pattern
  invert : Bool
  before : Int
  after : Int
  numbers : Bool

def GrepOptions.selects (options : GrepOptions) (line : Text) : Bool :=
  options.patterns.any (Regex.isFound · line) != options.invert

/-- Whether the line at an index is shown, given the indices of the selected lines. -/
def GrepOptions.shows (options : GrepOptions) (selected : List Nat) (index : Nat) : Bool :=
  selected.any fun hit => (hit : Int) - options.before ≤ index && (index : Int) ≤ hit + options.after

/-- What stands before a line: the name of the file and the number of the line. -/
def GrepOptions.lead (options : GrepOptions) (name : Option Text) (hit : Bool) (index : Nat) :
    Text :=
  let mark := if hit then chr ':' else chr '-'
  (match name with
    | some name => name ++ [mark]
    | none => []) ++
  if options.numbers then Text.ofNat (index + 1) ++ [mark] else []

/-- Lines with their leads; a rule stands where lines have been left out. -/
def withRules (last : Option Nat) : List (Nat × Text) → List Text
  | [] => []
  | (index, line) :: rest =>
    (if last.any (· + 1 < index) then [[chr '-', chr '-']] else []) ++ line :: withRules (some index) rest

def GrepOptions.search (options : GrepOptions) (name : Option Text) (t : Text) : List Text :=
  let lines := (Text.lines t).zipIdx
  let selected := (lines.filter fun (line, _) => options.selects line).map Prod.snd
  let shown := lines.filter fun (_, index) => options.shows selected index
  withRules none (shown.map fun (line, index) =>
    (index, options.lead name (selected.contains index) index ++ line))

def grepPatterns (ignoreCase : Bool) (texts : List Text) : Except Fault (List Pattern) :=
  texts.mapM fun t =>
    match Regex.parse ignoreCase t with
    | .ok pattern => .ok pattern
    | .error error =>
      .error (.badExpression "grep: invalid regular expression" (error.message t))

/-- The paths that are searched: the files below a directory, if asked. -/
def grepTargets (v : Volume) (recursive : Bool) (files : List Text) : Except Fault (List Text) := do
  let found ← files.mapM fun path =>
    if recursive && (v.resolve? path).any v.isDirectory then v.filesBelow path
    else .ok [path]
  return found.flatten

/-- What `grep` shows of a path; a path that cannot be read gives a line of its own. -/
def GrepOptions.searchPath (options : GrepOptions) (v : Volume) (names : Bool) (path : Text) :
    List Text :=
  match v.contentOf path with
  | .ok content => options.search (if names then some path else none) content
  | .error fault => [(Fault.within "grep" fault).message]

/-- The context that was asked for on one side; that for both sides comes first. -/
def contextLines (arguments : Arguments) (side : Text) : Int :=
  match (arguments.integer? "-C").getD 0 with
  | 0 => (arguments.integer? side).getD 0
  | both => both

def grep : Command := filter grepSpec fun arguments stdin => do
  let rest := arguments.words "rest"
  let given := arguments.texts "-e"
  let (patterns, files) ← match given, rest with
    | [], [] => throw (.missingOperand "grep" "missing pattern")
    | [], pattern :: files => pure ([pattern], files)
    | given, files => pure (given, files)
  let options : GrepOptions := {
    patterns := ← Action.ofExcept (grepPatterns (arguments.isOn "-i") patterns)
    invert := arguments.isOn "-v"
    before := contextLines arguments "-B"
    after := contextLines arguments "-A"
    numbers := arguments.isOn "-n" }
  match files, stdin with
  | [], none => throw (.missingOperand "grep" "missing file operand")
  | [], some content => return Text.joinLines (options.search none content)
  | files, _ =>
    let recursive := arguments.isOn "-r"
    let targets ← Action.ask fun v => grepTargets v recursive files
    let names := (targets.length > 1 || recursive) && !arguments.isOn "-h"
    let v ← Action.volume
    return Text.joinLines (targets.flatMap (options.searchPath v names))

def findSpec : Spec where
  command := "find"
  summary := "Search for files in a directory hierarchy"
  switches := [.askHelp, ⟨["-name"], .text "NAME", "Base name matches shell PATTERN"⟩,
    ⟨["-iname"], .text "INAME", "Like -name, case insensitive"⟩,
    ⟨["-type"], .choice [[chr 'f'], [chr 'd']], "f: regular file, d: directory"⟩,
    ⟨["-maxdepth"], .integer "MAXDEPTH", "Descend at most N levels"⟩]
  operands := [⟨"paths", .many, "Starting points (default: .)"⟩]

def isWanted (arguments : Arguments) (node : Inode) : Bool :=
  (arguments.text? "-name").all (Glob.isMatch · node.name) &&
    (arguments.text? "-iname").all (fun pattern =>
      Glob.isMatch (Text.lower pattern) (Text.lower node.name)) &&
    (arguments.text? "-type").all fun kind => node.isDirectory == (kind == [chr 'd'])

/-- The paths of the wanted inodes at and below one, down to `bound` levels. -/
def findWithin (v : Volume) (wanted : Inode → Bool) (maxDepth : Option Int) :
    (bound depth : Nat) → (path : Text) → InodeId → List Text
  | 0, _, _, _ => []
  | bound + 1, depth, path, id =>
    match v.get? id with
    | none => []
    | some node =>
      let lead := if path.getLast? = some (chr '/') then path else path ++ [chr '/']
      (if wanted node then [path] else []) ++
        if maxDepth.any (· ≤ (depth : Int)) then []
        else node.entries.flatMap fun (_, child) =>
          findWithin v wanted maxDepth bound (depth + 1) (lead ++ v.nameOf child) child

def findFrom (v : Volume) (arguments : Arguments) (start : Text) : Except Fault (List Text) :=
  match v.resolve? start with
  | none => .error (.pathNote .missing ("find: '" ++ start ++ "': No such file or directory"))
  | some found =>
    .ok (findWithin v (isWanted arguments) (arguments.integer? "-maxdepth") v.slots.size 0 start found)

def find : Command := plain findSpec fun arguments => do
  let paths := arguments.words "paths"
  let found ← Action.ask fun v =>
    (if paths.isEmpty then [[chr '.']] else paths).mapM (findFrom v arguments)
  return Text.joinLines found.flatten

end TreeShell.Builtin
