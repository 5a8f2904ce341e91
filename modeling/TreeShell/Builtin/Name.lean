import TreeShell.Builtin.Basic

/-! The commands that need no files: `echo`, `true`, `false`, `basename` and `dirname`. -/
namespace TreeShell.Builtin

open Options

def echo : Command where
  name := "echo"
  acceptsInput := false
  run words _ := return Text.join [chr ' '] (words.map Word.text)

def succeed : Command where
  name := "true"
  acceptsInput := false
  run _ _ := return []

def fail : Command where
  name := "false"
  acceptsInput := false
  run _ _ := throw (.refused [])

def basenameSpec : Spec where
  command := "basename"
  summary := "Strip directory and suffix from a file name"
  switches := [.askHelp]
  operands := [⟨"name", .one, "Path name"⟩, ⟨"suffix", .optional, "Suffix to remove"⟩]

/-- A text without an ending; a text that is the ending is kept. -/
def dropEnding (ending t : Text) : Text :=
  if ending.isSuffixOf t && t != ending then t.take (t.length - ending.length) else t

def lastName (path ending : Text) : Text :=
  match path, path.dropEndWhile (· == '/') with
  | [], _ => []
  | _, [] => [chr '/']
  | _, body =>
    match body.breakOnLast? (chr '/') with
    | some (_, name) => dropEnding ending name
    | none => dropEnding ending body

def basename : Command := plain basenameSpec fun arguments =>
  return lastName (arguments.word "name") ((arguments.word? "suffix").getD [])

def dirnameSpec : Spec where
  command := "dirname"
  summary := "Strip the last component from a file name"
  switches := [.askHelp]
  operands := [⟨"name", .one, "Path name"⟩]

def dirname : Command := plain dirnameSpec fun arguments =>
  return (Path.parse (arguments.word "name")).1

end TreeShell.Builtin
