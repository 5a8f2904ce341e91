import TreeShell.Builtin.Basic
import TreeShell.Sed

/-! The command `sed`, which edits texts line by line. -/
namespace TreeShell.Builtin

open Options

def sedSpec : Spec where
  command := "sed"
  summary := "Stream editor for filtering and transforming text"
  switches := [.askHelp,
    ⟨["-e", "--expression"], .text "SCRIPTS", "Add the script to the commands to be executed"⟩,
    .flag ["-i", "--in-place"] "Edit files in place",
    .flag ["-n", "--quiet", "--silent"] "Suppress automatic printing of pattern space"]
  operands := [⟨"rest", .many, "Script and file (if -e not used)"⟩]

/-- Edits one file. An edit in place writes the file and shows nothing. -/
def editFile (edit : Text → Except Fault Text) (inPlace : Bool) (path : Text) :
    Action (List Text) := do
  let content ← Action.ofExcept (edit (← readFile "sed" path))
  if inPlace then
    let _ ← Action.changePartly fun v now => v.writeFile now path content false
    return []
  else return [content]

def sed : Command := filter sedSpec fun arguments stdin => do
  let (scripts, files) ← match arguments.texts "-e", arguments.words "rest" with
    | [], [] => throw (.missingOperand "sed" "missing script")
    | [], script :: files => pure ([script], files)
    | scripts, files => pure (scripts, files)
  let scripts ← Action.ofExcept (scripts.mapM Sed.Script.parse)
  let inPlace := arguments.isOn "-i"
  let edit := Sed.edit (arguments.isOn "-n") scripts
  match files, stdin with
  | [], stdin =>
    if inPlace then throw (.missingOperand "sed" "no input files")
    match stdin with
    | none => throw (.missingOperand "sed" "missing file operand")
    | some content => Action.ofExcept (edit content)
  | files, _ =>
    let shown ← files.mapM (editFile edit inPlace)
    return Text.joinLines shown.flatten

end TreeShell.Builtin
