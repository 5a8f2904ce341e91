import TreeShell.Builtin.Basic

/-! The commands for looking around: `pwd`, `cd` and `ls`. -/
namespace TreeShell.Builtin

open Options

def pwdSpec : Spec where
  command := "pwd"
  summary := "Print the current working directory"
  switches := [.askHelp]
  operands := []

def pwd : Command := plain pwdSpec fun _ => return (← Action.volume).currentPath

def cdSpec : Spec where
  command := "cd"
  summary := "Change the current working directory"
  switches := [.askHelp]
  operands := [⟨"directory", .optional, "Target directory (default: /)"⟩]

def cd : Command := plain cdSpec fun arguments => do
  Action.within cdSpec.command (Action.change fun v _ =>
    (v.changeDirectory ((arguments.word? "directory").getD [])).map fun v => ((), v))
  return []

def lsSpec : Spec where
  command := "ls"
  summary := "List directory contents"
  switches := [.askHelp, .flag ["-l"] "Use a long listing format",
    .flag ["-a", "--all"] "Do not ignore entries starting with ."]
  operands := [⟨"paths", .many, "Files or directories to list"⟩]

def longEntry (node : Inode) (name : Text) : Except Fault Text := do
  let size ← node.size
  return (if node.isDirectory then "drwxr-xr-x " else "-rw-r--r-- ") ++
    (Text.ofNat size).padStart 8 ++ chr ' ' :: node.modified.renderShort ++ chr ' ' :: name

def listEntry (v : Volume) (long : Bool) (entry : Text × InodeId) : Except Fault Text :=
  match long, v.get? entry.2 with
  | true, some node => longEntry node entry.1
  | _, _ => .ok entry.1

/-- The entries of a directory that a listing shows, in increasing order. With `all` the
directory itself and its parent come first. -/
def listedEntries (v : Volume) (all : Bool) (directory : InodeId) : List (Text × InodeId) :=
  let entries := (v.entries directory).map fun (_, child) => (v.nameOf child, child)
  let shown := entries.filter fun (name, _) => all || name.head? != some (chr '.')
  let sorted := shown.mergeSort fun a b => Text.le a.1 b.1
  if all then
    ([chr '.'], directory) :: ([chr '.', chr '.'], (v.parentOf? directory).getD directory) :: sorted
  else sorted

/-- What a path contributes to a listing: the line of a file, or a directory. -/
def listTarget (v : Volume) (long : Bool) (path : Text) : Except Fault (Text ⊕ Text × InodeId) :=
  match v.resolve? path with
  | none => .error (.cannot "ls: cannot access" path (.path .missing path))
  | some found =>
    if v.isFile found then (listEntry v long (path, found)).map .inl else .ok (.inr (path, found))

/-- The listing of paths: the files first, then the directories one by one. -/
def list (v : Volume) (all long : Bool) (paths : List Text) : Except Fault Text := do
  let targets ← paths.mapM (listTarget v long)
  let several := paths.length > 1
  let files := targets.filterMap Sum.getLeft?
  let fileBlock := if files.isEmpty then [] else [Text.joinLines files]
  let blocks ← (targets.filterMap Sum.getRight?).mapM fun (path, id) => do
    let lines ← (listedEntries v all id).mapM (listEntry v long)
    return Text.joinLines (if several then (path ++ [chr ':']) :: lines else lines)
  return Text.join (if several then "\n\n" else "\n") (fileBlock ++ blocks)

def ls : Command := plain lsSpec fun arguments =>
  let paths := arguments.words "paths"
  Action.ask fun v => list v (arguments.isOn "-a") (arguments.isOn "-l")
    (if paths.isEmpty then [[chr '.']] else paths)

end TreeShell.Builtin
