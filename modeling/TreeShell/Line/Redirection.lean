import TreeShell.Fault
import TreeShell.Line.Word

/-! Redirections, taken out of the words of a command. -/
namespace TreeShell

/-- A redirection: to or from a target, or of errors into the output. -/
inductive Redirection where
  | to (how : Redirector) (target : Text)
  | mergeErrors
  deriving DecidableEq

namespace Redirection

def toWords : Redirection → List Word
  | .to how target => [.plain how.text, .plain target]
  | .mergeErrors => [.plain Operator.mergeErrors.text]

/-- Whether a failure is recorded as errors instead of ending the command. -/
def capturesErrors : Redirection → Bool
  | .to .errors _ | .to .errorsAppend _ | .to .all _ | .mergeErrors => true
  | .to .input _ | .to .heredoc _ | .to .output _ | .to .append _ => false

def isHeredoc : Redirection → Bool
  | .to .heredoc _ => true
  | _ => false

end Redirection

/-- The words of a command and its redirections, each in the order of the line. The word
after a redirection is its target, whatever it looks like. -/
def takeRedirections : List Word → Except Fault (List Word × List Redirection)
  | [] => .ok ([], [])
  | w :: rest =>
    match w.operator? with
    | some .mergeErrors =>
      (takeRedirections rest).map fun (command, found) => (command, .mergeErrors :: found)
    | some (.redirect how) =>
      match rest with
      | [] => .error (.missingTarget how.text)
      | target :: rest =>
        (takeRedirections rest).map fun (command, found) => (command, .to how target.text :: found)
    | _ => (takeRedirections rest).map fun (command, found) => (w :: command, found)

end TreeShell
