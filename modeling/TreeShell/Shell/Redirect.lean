import TreeShell.Line.Redirection
import TreeShell.Shell.Session

/-! What redirections do around a command: they give it its input, and take its output and
its errors. Outputs have no end of line of their own, so a text that is appended to a file
begins a new line there. -/
namespace TreeShell

/-- The content of the file that a path names, or why there is none. -/
def Volume.contentOf (v : Volume) (path : Text) : Except Fault Text :=
  match v.resolve? path with
  | none => .error (.path .missing path)
  | some found =>
    match v.content? found with
    | some content => .ok content
    | none => .error (.path .isDirectory path)

/-- A text behind another one, on a line of its own if neither is empty. -/
def Text.below (old new : Text) : Text :=
  if old.isEmpty || new.isEmpty then old ++ new else old ++ chr '\n' :: new

/-- Writes a text to a file, which is created if nothing is there. -/
def Volume.store (v : Volume) (now : Instant) (path content : Text) (append : Bool) :
    Except Fault InodeId × Volume :=
  match v.resolve? path with
  | none => v.createFile now path content
  | some found =>
    match v.content? found with
    | none => (.error (.path .isDirectory path), v)
    | some old =>
      (.ok found, v.setContent now found (if append then Text.below old content else content))

namespace Redirection

/-- The input of a command: the last file that is named for it, else what is piped. -/
def input (v : Volume) : List Redirection → Option Text → Except Fault (Option Text)
  | [], stdin => .ok stdin
  | .to .input target :: rest, _ => do input v rest (some (← v.contentOf target))
  | _ :: rest, stdin => input v rest stdin

/-- A text that is written to a target. -/
structure Writing where
  target : Text
  content : Text
  append : Bool

/-- What the redirections of errors write, and what they leave of the output and the
errors. -/
def errorWritings : (redirections : List Redirection) → (output errors : Text) →
    List Writing × Text × Text
  | [], output, errors => ([], output, errors)
  | .to .errors target :: rest, output, errors =>
    let (later, left) := errorWritings rest output errors
    (⟨target, errors, false⟩ :: later, left)
  | .to .errorsAppend target :: rest, output, errors =>
    let (later, left) := errorWritings rest output errors
    (⟨target, errors, true⟩ :: later, left)
  | .to .all target :: rest, output, errors =>
    let (later, left) := errorWritings rest [] []
    (⟨target, Text.below output errors, false⟩ :: later, left)
  | _ :: rest, output, errors => errorWritings rest output errors

/-- The targets of the output, and whether each is appended to. -/
def outputTargets (redirections : List Redirection) : List (Text × Bool) :=
  redirections.filterMap fun
    | .to .output target => some (target, false)
    | .to .append target => some (target, true)
    | _ => none

/-- What the redirections of output write: only the last target gets the text. -/
def outputWritings (output : Text) : List (Text × Bool) → List Writing
  | [] => []
  | [(target, append)] => [⟨target, output, append⟩]
  | (target, append) :: rest => ⟨target, [], append⟩ :: outputWritings output rest

/-- Everything that redirections write, in order, and what is left of the output. -/
def writings (redirections : List Redirection) (output errors : Text) : List Writing × Text :=
  let (first, output, errors) := errorWritings redirections output errors
  let output :=
    if redirections.contains .mergeErrors then Text.below output errors else output
  let targets := outputTargets redirections
  (first ++ outputWritings output targets, if targets.isEmpty then output else [])

def write (w : Writing) : Action Unit := do
  let _ ← Action.changePartly fun v now => v.store now w.target w.content w.append

/-- Sends the output and the errors of a command where they belong, and gives what is left
of the output. -/
def send (redirections : List Redirection) (output errors : Text) : Action Text := do
  let (found, left) := writings redirections output errors
  found.forM write
  return left

end Redirection

end TreeShell
