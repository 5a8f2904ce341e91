import TreeShell.Options.Reader
import TreeShell.Shell.Redirect
import TreeShell.Shell.Registry

/-! What the commands of the shell share: reading their words, and reading their input
from files or from what is piped into them. -/
namespace TreeShell.Builtin

open Options

/-- A command whose words are switches and operands. The words are prepared before they
are read. -/
def prepared (spec : Spec) (acceptsInput : Bool) (prepare : List Text → List Text)
    (work : Arguments → Option Text → Action Text) : Command where
  name := spec.command
  acceptsInput := acceptsInput
  run words stdin := do
    match ← Action.ofExcept (spec.read (prepare (words.map Word.text))) with
    | .help text => return text
    | .work arguments => work arguments stdin

/-- A command whose words are switches and operands, and which takes no input. -/
def plain (spec : Spec) (work : Arguments → Action Text) : Command :=
  prepared spec false id fun arguments _ => work arguments

/-- A command whose words are switches and operands, and which takes an input. -/
def filter (spec : Spec) (work : Arguments → Option Text → Action Text) : Command :=
  prepared spec true id work

def readFile (command path : Text) : Action Text :=
  Action.within command (Action.ask fun v => v.contentOf path)

/-- The inputs of a command under their names: its files, or what is piped into it. A dash
stands for what is piped, if anything is. -/
def inputs (command : Text) (files : List Text) (stdin : Option Text) :
    Action (List (Text × Text)) :=
  match files, stdin with
  | [], none => throw (.missingOperand command "missing file operand")
  | [], some content => return [([chr '-'], content)]
  | files, stdin => files.mapM fun path =>
    match stdin, path == [chr '-'] with
    | some content, true => return (path, content)
    | _, _ => return (path, ← readFile command path)

/-- The files that a command was given, a single empty name counting as none. -/
def named : Option Text → List Text
  | none | some [] => []
  | some path => [path]

end TreeShell.Builtin
