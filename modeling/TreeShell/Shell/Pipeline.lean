import TreeShell.Line.Segment
import TreeShell.Pattern.Wildcard
import TreeShell.Shell.Redirect
import TreeShell.Shell.Registry

/-! Running the commands of a line. A command that fails ends the line when `&&` or `|`
follows it; otherwise its message becomes its output and the line goes on. -/
namespace TreeShell.Registry

/-- Runs one command: its words are expanded, and a text is handed to it if it takes one. -/
def dispatch (registry : Registry) (command : List Word) (stdin : Option Text) : Action Text :=
  match command with
  | [] => return []
  | name :: words => do
    let found ← Action.ofExcept (registry.find name.text)
    let words := Wildcard.expand (← Action.volume) none words
    found.run words (if found.acceptsInput then stdin else none)

/-- Runs a command and collects what it remarks; a failure becomes the last remark. -/
def collect (registry : Registry) (command : List Word) (stdin : Option Text) :
    Action (Text × List Text) := do
  modify fun session => { session with remarks := some [] }
  let result ← Action.observe (registry.dispatch command stdin)
  let remarks := (← get).remarks.getD []
  modify fun session => { session with remarks := none }
  match result with
  | .ok output => return (output, remarks)
  | .error fault => return ([], remarks ++ [fault.message])

def runRedirected (registry : Registry) (command : List Word) (stdin : Option Text)
    (redirections : List Redirection) : Action Text := do
  let stdin ← Action.ask fun v => Redirection.input v redirections stdin
  if redirections.any Redirection.capturesErrors then
    let (output, remarks) ← registry.collect command stdin
    Redirection.send redirections output (Text.joinLines remarks)
  else
    Redirection.send redirections (← registry.dispatch command stdin) []

/-- Runs a command from which the redirections have been taken. A heredoc that is still
among them has no body. -/
def runCommand (registry : Registry) (command : List Word) (redirections : List Redirection)
    (stdin : Option Text) : Action Text :=
  if redirections.any Redirection.isHeredoc then throw .bodylessHeredoc
  else if redirections.isEmpty then registry.dispatch command stdin
  else registry.runRedirected command stdin redirections

def runWithBody (registry : Registry) (command : List Word) (body : Text) : Action Text :=
  if command.isEmpty then throw .commandlessHeredoc else registry.dispatch command (some body)

/-- Runs commands, each on the output of the one before it. -/
def runPipeline (registry : Registry) (output : Option Text) : List (List Word) → Action Text
  | [] => return output.getD []
  | words :: rest => do
    let (command, redirections) ← Action.ofExcept (takeRedirections words)
    let output ← registry.runCommand command redirections output
    registry.runPipeline (some output) rest

/-- Whether a segment is passed over because of the operator before it. -/
def isSkipped (before : Option Joint) (failed : Bool) : Bool :=
  match before with
  | some .and => failed
  | some .or => !failed
  | _ => false

/-- The input of a segment: its body, or the output so far where a pipe stands before or
behind it. -/
def inputFor (before : Option Joint) (segment : Segment) (output : Option Text) : Option Text :=
  match segment.body, before with
  | some body, _ => some body
  | none, none => none
  | none, some before => if segment.joint = .pipe ∨ before = .pipe then output else none

/-- Runs segments one after the other. `before` is the joint in front of the first one,
`output` the output so far and `failed` whether the last command failed. -/
def runFrom (registry : Registry) (before : Option Joint) (output : Option Text) (failed : Bool) :
    List Segment → Action Text
  | [] => do
    Action.exit (if failed then 1 else 0)
    return output.getD []
  | segment :: rest =>
    if isSkipped before failed then registry.runFrom (some segment.joint) output failed rest
    else do
      let (command, redirections) ← Action.ofExcept (takeRedirections segment.command)
      let stdin := inputFor before segment output
      match ← Action.observe (registry.runCommand command redirections stdin) with
      | .ok output => registry.runFrom (some segment.joint) (some output) false rest
      | .error fault =>
        if segment.joint = .and ∨ segment.joint = .pipe then
          Action.exit 1
          throw fault
        else registry.runFrom (some segment.joint) (some fault.message) true rest

def runSequence (registry : Registry) (segments : List Segment) : Action Text :=
  registry.runFrom none none false segments

/-- Runs the segments of a line. A single command fails with its own fault. -/
def runSegments (registry : Registry) (segments : List Segment) : Action Text :=
  match segments with
  | [] => return []
  | [⟨.close, words, body⟩] => do
    let (command, redirections) ← Action.ofExcept (takeRedirections words)
    let output ← registry.runCommand command redirections body
    Action.exit 0
    return output
  | segments => registry.runSequence segments

end TreeShell.Registry
