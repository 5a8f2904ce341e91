import TreeShell.Options.Basic

/-! The usage line and the help of a command. -/
namespace TreeShell.Options

def usageWidth : Nat := 78

def helpColumnLimit : Nat := 24

/-- The label of the value of a switch, with a space in front. -/
def Effect.label : Effect → Text
  | .help | .flag => []
  | .text label | .integer label => chr ' ' :: label
  | .choice values => " \x7b" ++ Text.join [chr ','] values ++ "\x7d"

def Switch.usage (s : Switch) : Text := chr '[' :: s.key ++ s.effect.label ++ "]"

def Operand.usage (o : Operand) : List Text :=
  match o.arity with
  | .one | .waiting => [o.name]
  | .optional => [chr '[' :: o.name ++ "]"]
  | .many => [chr '[' :: o.name ++ " ...]"]
  | .atLeastOne => [o.name, chr '[' :: o.name ++ " ...]"]

/-- Fills lines with parts; `line` is the line at hand, `used` its length with the indent. -/
def fill (indent : Nat) (line : List Text) (used : Nat) : List Text → List (List Text)
  | [] => if line.isEmpty then [] else [line]
  | part :: rest =>
    if used + 1 + part.length > usageWidth && !line.isEmpty then
      line :: fill indent [part] (indent + part.length) rest
    else fill indent (line ++ [part]) (used + 1 + part.length) rest

namespace Spec

/-- The usage of a command: one line, or several with the operands on lines of their own. -/
def usage (spec : Spec) : Text :=
  let start : Text := "usage: "
  let switches := spec.switches.map Switch.usage
  let operands := spec.operands.flatMap Operand.usage
  let line := start ++ Text.join [chr ' '] (spec.command :: switches ++ operands)
  if line.length ≤ usageWidth then line
  else
    let indent := start.length + spec.command.length + 1
    let margin := List.replicate indent (chr ' ')
    let first := fill indent [] (indent - 1) switches
    let second := fill indent [] (indent - 1) operands
    let lines := (first ++ second).map fun parts => margin ++ Text.join [chr ' '] parts
    start ++ spec.command ++ chr ' ' :: (Text.joinLines lines).drop indent

def invocation (s : Switch) : Text :=
  Text.join ", " (s.names.map (· ++ s.effect.label))

/-- The entries of the help: how each operand and each switch is given, and its words. -/
def operandEntries (spec : Spec) : List (Text × Text) :=
  spec.operands.map fun o => (o.name, o.help)

def switchEntries (spec : Spec) : List (Text × Text) :=
  spec.switches.map fun s => (invocation s, s.help)

def helpColumn (spec : Spec) : Nat :=
  let longest := (spec.operandEntries ++ spec.switchEntries).foldl
    (fun width entry => max width entry.1.length) 0
  min (longest + 4) helpColumnLimit

/-- An entry of the help. A long invocation stands on a line of its own. -/
def entry (column : Nat) (item : Text × Text) : Text :=
  let (given, help) := item
  let front : Text := chr ' ' :: chr ' ' :: given
  if front.length + 2 ≤ column then front.padEnd column ++ help
  else front ++ chr '\n' :: List.replicate column (chr ' ') ++ help

/-- A part of the help under a title; nothing when it has no entries. -/
def block (column : Nat) (title : Text) (entries : List (Text × Text)) : List Text :=
  if entries.isEmpty then [] else [Text.joinLines (title :: entries.map (entry column))]

def helpText (spec : Spec) : Text :=
  let column := spec.helpColumn
  Text.join "\n\n" ([spec.usage, spec.summary] ++
    block column "positional arguments:" spec.operandEntries ++
    block column "options:" spec.switchEntries)

end Spec

end TreeShell.Options
