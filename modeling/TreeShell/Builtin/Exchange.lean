import TreeShell.Builtin.Basic
import TreeShell.Host.Transfer

/-! The commands `import` and `export`, which alone reach the host. -/
namespace TreeShell.Builtin

open Options

def importSpec : Spec where
  command := "import"
  summary := "Import a file or directory from the host filesystem"
  switches := [.askHelp, .recursive "Import directories recursively"]
  operands := [⟨"source", .one, "Host path"⟩,
    ⟨"destination", .optional, "VFS path (default: current directory)"⟩]

/-- Imports what stands at a path of the host. A directory goes under its own name when no
destination is given. -/
def importPath (recursive : Bool) (source : Text) (destination : List Text) : Action Unit := do
  let host := (← get).host
  let path := HostPath.ofText source
  if host.isDirectory path then
    if !recursive then
      throw (.pathNote .isDirectory (source ++ ": omitting directory (use -r or -R for recursive)"))
    let name := ((host.locate path).toOption.bind List.getLast?).getD []
    let _ ← Transfer.importDirectory path (destination.headD name)
  else
    let _ ← Transfer.importFile path (destination.headD [chr '.'])

def importCommand : Command := plain importSpec fun arguments => do
  let source := arguments.word "source"
  Action.rewording (.failed "import")
    (importPath (arguments.isOn "-r") source (named (arguments.word? "destination")))
  return "Imported: " ++ source

def exportSpec : Spec where
  command := "export"
  summary := "Export a file or directory to the host filesystem"
  switches := [.askHelp]
  operands := [⟨"source", .one, "VFS path"⟩, ⟨"destination", .one, "Host path"⟩]

def exportCommand : Command := plain exportSpec fun arguments => do
  let source := arguments.word "source"
  let destination := arguments.word "destination"
  let target := HostPath.ofText destination
  let v ← Action.volume
  match v.resolve? source with
  | none => throw (.within "export" (.path .missing source))
  | some found =>
    let _ ← Action.rewording (.failed "export")
      (if v.isDirectory found then Transfer.exportDirectory source target
        else Transfer.exportFile source target)
    return "Exported: " ++ source ++ " -> " ++ destination

end TreeShell.Builtin
