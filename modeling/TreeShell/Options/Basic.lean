import TreeShell.Text

/-! The switches and operands that a command understands. -/
namespace TreeShell.Options

/-- What a switch does. A label stands for the value in the help. -/
inductive Effect where
  /-- Asks for the help instead of the work. -/
  | help
  /-- Is given or not given. -/
  | flag
  | text (label : Text)
  | integer (label : Text)
  | choice (values : List Text)
  deriving DecidableEq

/-- A switch with all its spellings. -/
structure Switch where
  names : List Text
  effect : Effect
  help : Text

/-- How many words an operand takes. -/
inductive Arity where
  | one
  | optional
  | many
  | atLeastOne
  /-- None at all: the operand waits while the switches are read. -/
  | waiting
  deriving DecidableEq

structure Operand where
  name : Text
  arity : Arity
  help : Text

structure Spec where
  command : Text
  summary : Text
  switches : List Switch
  operands : List Operand

/-- A value that a switch was given. -/
inductive Value where
  | on
  | text (t : Text)
  | integer (n : Int)
  deriving DecidableEq

/-- What a command was given: the switches in order under their first spelling, and the
words of every operand. -/
structure Arguments where
  settings : List (Text × Value)
  operands : List (Text × List Text)

def Effect.takesValue : Effect → Bool
  | .help | .flag => false
  | .text _ | .integer _ | .choice _ => true

namespace Switch

def key (s : Switch) : Text := s.names.headD []

def flag (names : List Text) (help : Text) : Switch := ⟨names, .flag, help⟩

def askHelp : Switch := ⟨["-h", "--help"], .help, "show this help message and exit"⟩

def recursive (help : Text) : Switch := .flag ["-r", "-R", "--recursive"] help

end Switch

def Spec.find? (spec : Spec) (name : Text) : Option Switch :=
  spec.switches.find? (·.names.contains name)

namespace Arguments

def values (a : Arguments) (key : Text) : List Value :=
  a.settings.filterMap fun (name, value) => if name = key then some value else none

def isOn (a : Arguments) (key : Text) : Bool := !(a.values key).isEmpty

/-- The texts that a switch was given, in order. -/
def texts (a : Arguments) (key : Text) : List Text :=
  (a.values key).filterMap fun
    | .text t => some t
    | _ => none

def text? (a : Arguments) (key : Text) : Option Text := (a.texts key).getLast?

def integer? (a : Arguments) (key : Text) : Option Int :=
  ((a.values key).filterMap fun
    | .integer n => some n
    | _ => none).getLast?

def words (a : Arguments) (name : Text) : List Text := (a.operands.lookup name).getD []

def word (a : Arguments) (name : Text) : Text := (a.words name).headD []

def word? (a : Arguments) (name : Text) : Option Text := (a.words name).head?

end Arguments

end TreeShell.Options
