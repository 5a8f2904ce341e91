import TreeShell.Builtin.Basic
import TreeShell.Volume.Relocate

/-! The commands that change the tree: `mkdir`, `touch`, `rm`, `mv`, `cp` and `write`. A
command with several operands stops at the first that fails; what it did before stays. -/
namespace TreeShell.Builtin

open Options

def mkdirSpec : Spec where
  command := "mkdir"
  summary := "Create directories"
  switches := [.askHelp,
    .flag ["-p", "--parents"] "No error if existing, make parent directories as needed"]
  operands := [⟨"directories", .atLeastOne, "Directories to create"⟩]

/-- Makes one directory, with those around it if asked. -/
def makeDirectory (parents : Bool) (path : Text) : Action Unit :=
  Action.rewording (.cannot "mkdir: cannot create directory" path) do
    let _ ←
      if parents then Action.changePartly fun v now => v.createDirectories now path
      else Action.change fun v now => v.createDirectory now path

def mkdir : Command := plain mkdirSpec fun arguments => do
  (arguments.words "directories").forM (makeDirectory (arguments.isOn "-p"))
  return []

def touchSpec : Spec where
  command := "touch"
  summary := "Create files or update their timestamps"
  switches := [.askHelp]
  operands := [⟨"files", .atLeastOne, "Files to touch"⟩]

def touch : Command := plain touchSpec fun arguments => do
  (arguments.words "files").forM fun path => do
    let _ ← Action.rewording (.cannot "touch: cannot touch" path)
      (Action.changePartly fun v now => v.touchPath now path)
  return []

def rmSpec : Spec where
  command := "rm"
  summary := "Remove files or directories"
  switches := [.askHelp, .recursive "Remove directories and their contents recursively",
    .flag ["-f", "--force"] "Ignore nonexistent files"]
  operands := [⟨"paths", .many, "Files or directories to remove"⟩]

/-- Removes one path; a path that is not there can be passed over. -/
def removePath (recursive force : Bool) (path : Text) : Action Unit := do
  let removal := Action.change fun v now => (v.remove now path recursive).map fun v => ((), v)
  match ← Action.observe removal with
  | .ok () => return ()
  | .error fault =>
    if force && fault.kind == .path .missing then return ()
    else throw (.cannot "rm: cannot remove" path fault)

def rm : Command := plain rmSpec fun arguments => do
  let paths := arguments.words "paths"
  let force := arguments.isOn "-f"
  if paths.isEmpty && !force then throw (.missingOperand "rm" "missing operand")
  paths.forM (removePath (arguments.isOn "-r") force)
  return []

/-- The sources and the destination among the words of a command. Several sources need a
directory to go to. -/
def sourcesAndTarget (v : Volume) (command : Text) (paths : List Text) :
    Except Fault (List Text × Text) :=
  match paths.reverse with
  | [] => .error (.missingOperand command "missing destination file operand")
  | [path] =>
    .error (.missingOperand command ("missing destination file operand after '" ++ path ++ [chr '\'']))
  | target :: sources =>
    if sources.length > 1 && !(v.resolve? target).any v.isDirectory then
      .error (.pathNote .notDirectory (command ++ ": target '" ++ target ++ "' is not a directory"))
    else .ok (sources.reverse, target)

def mvSpec : Spec where
  command := "mv"
  summary := "Move or rename files and directories"
  switches := [.askHelp]
  operands := [⟨"paths", .many, "SOURCE... DEST"⟩]

def mv : Command := plain mvSpec fun arguments => do
  let (sources, target) ← Action.ask fun v => sourcesAndTarget v "mv" (arguments.words "paths")
  sources.forM fun source => do
    let _ ← Action.within "mv" (Action.change fun v now => v.move now source target)
  return []

def cpSpec : Spec where
  command := "cp"
  summary := "Copy files and directories"
  switches := [.askHelp, .recursive "Copy directories recursively"]
  operands := [⟨"paths", .many, "SOURCE... DEST"⟩]

/-- Copies one path. -/
def copyPath (recursive : Bool) (target source : Text) : Action Unit := do
  let v ← Action.volume
  if (v.resolve? source).any v.isDirectory && !recursive then
    throw (.pathNote .isDirectory ("cp: -r not specified; omitting directory '" ++ source ++ [chr '\'']))
  let _ ← Action.within "cp" (Action.change fun v now => v.copy now source target recursive)

def cp : Command := plain cpSpec fun arguments => do
  let (sources, target) ← Action.ask fun v => sourcesAndTarget v "cp" (arguments.words "paths")
  sources.forM (copyPath (arguments.isOn "-r") target)
  return []

/-- The command `write`: it writes its further words, or what is piped into it, to a file. -/
def write : Command where
  name := "write"
  acceptsInput := true
  run words stdin := do
    let store (path content : Text) : Action Text := do
      let _ ← Action.within "write" (Action.changePartly fun v now => v.writeFile now path content false)
      return []
    match words.map Word.text, stdin with
    | [path], some content => store path content
    | path :: first :: rest, _ => store path (Text.join [chr ' '] (first :: rest))
    | _, _ => throw (.missingOperand "write" "missing file or content argument")

end TreeShell.Builtin
