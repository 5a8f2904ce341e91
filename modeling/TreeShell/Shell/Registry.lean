import TreeShell.Line.Word
import TreeShell.Shell.Session

/-! Commands and the names they go by. -/
namespace TreeShell

/-- A command: it is given the words behind its name and the text piped into it. -/
structure Command where
  name : Text
  /-- Whether a text piped into the command is handed to it. -/
  acceptsInput : Bool
  run : List Word → Option Text → Action Text

/-- The commands of a shell by the names they go by. -/
abbrev Registry := List (Text × Command)

namespace Registry

def find (registry : Registry) (name : Text) : Except Fault Command :=
  match registry.lookup name with
  | some command => .ok command
  | none => .error (.unknownCommand name)

/-- Lets a command go by a name; the empty name stands for its own. -/
def register (registry : Registry) (command : Command) (name : Text) : Registry :=
  let key := if name.isEmpty then command.name else name
  registry.filter (·.1 != key) ++ [(key, command)]

def registerAll (registry : Registry) (commands : List Command) : Registry :=
  commands.foldl (fun registry command => registry.register command []) registry

def unregister (registry : Registry) (name : Text) : Registry :=
  registry.filter (·.1 != name)

def contains (registry : Registry) (name : Text) : Bool := (registry.lookup name).isSome

def names (registry : Registry) : List Text := (registry.map Prod.fst).mergeSort Text.le

end Registry

end TreeShell
