import TreeShell.Text.Quoted
import TreeShell.Text.Utf8

/-! What can go wrong. A fault is a cause with the texts it concerns; its message and its
kind are read off the cause, so that a command that reports a fault of another part keeps
the kind and adds its own words. -/
namespace TreeShell

/-- Why a path cannot be used as asked. -/
inductive PathTrouble where
  | missing
  | isDirectory
  | notDirectory
  | notEmpty
  | alreadyExists
  | invalid
  deriving DecidableEq

def PathTrouble.reason : PathTrouble → Text
  | .missing => "No such file or directory"
  | .isDirectory => "Is a directory"
  | .notDirectory => "Not a directory"
  | .notEmpty => "Directory not empty"
  | .alreadyExists => "File exists"
  | .invalid => "Invalid path"

/-- The quotes of a command line. -/
inductive QuoteStyle where
  | single
  | double
  deriving DecidableEq

def QuoteStyle.label : QuoteStyle → Text
  | .single => "single"
  | .double => "double"

/-- Why the host refuses an operation on one of its paths. -/
inductive HostTrouble where
  | missing
  | exists
  | notDirectory
  | isDirectory
  | invalid
  | busy
  | notEmpty
  deriving DecidableEq

def HostTrouble.code : HostTrouble → Nat
  | .missing => 2
  | .busy => 16
  | .exists => 17
  | .notDirectory => 20
  | .isDirectory => 21
  | .invalid => 22
  | .notEmpty => 39

def HostTrouble.reason : HostTrouble → Text
  | .missing => "No such file or directory"
  | .exists => "File exists"
  | .notDirectory => "Not a directory"
  | .isDirectory => "Is a directory"
  | .invalid => "Invalid argument"
  | .busy => "Device or resource busy"
  | .notEmpty => "Directory not empty"

/-- Everything that can go wrong, by cause. -/
inductive Fault where
  /-- A path that cannot be used as asked. -/
  | path (trouble : PathTrouble) (place : Text)
  /-- A path of any trouble, with words of its own. -/
  | pathNote (trouble : PathTrouble) (note : Text)
  | rootRemoval
  | rootMove
  | moveIntoItself (source target : Text)
  | copyIntoItself (source target : Text)
  | snapshotRoot
  | snapshotEntry (detail : Text)
  | snapshotWithoutRoot
  /-- A fault met by a command, reported under the command's name. -/
  | within (command : Text) (fault : Fault)
  /-- A fault that kept a command from what it attempted, with its reason only. -/
  | cannot (attempt place : Text) (fault : Fault)
  /-- A fault of any kind that a command reports as a failure of its own. -/
  | failed (command : Text) (fault : Fault)
  | unknownCommand (name : Text)
  | missingOperand (command what : Text)
  /-- A command that fails with a message of its own. -/
  | refused (message : Text)
  /-- A registered command that broke down. -/
  | broken (message : Text)
  | usage (command complaint form : Text)
  | unsupportedScript (script : Text)
  | badExpression (context detail : Text)
  | badReplacement (detail : Text)
  | openQuote (style : QuoteStyle) (position : Nat)
  | missingTarget (operator : Text)
  | bodylessHeredoc
  | commandlessHeredoc
  | noPatch
  | malformedPatch (detail : Text)
  | hunkFailed (number : Nat) (line : Int)
  /-- The host refuses an operation on one of its paths, which is shown in quotes. -/
  | host (trouble : HostTrouble) (shown : Text)
  /-- A text has no bytes for the surrogates that stand together in it from a position on. -/
  | unencodable (position : Nat) (surrogates : Text)

namespace Fault

def message : Fault → Text
  | .path trouble place => place ++ ": " ++ trouble.reason
  | .pathNote _ note => note
  | .rootRemoval => "cannot remove root directory"
  | .rootMove => "cannot move root directory"
  | .moveIntoItself source target =>
    "cannot move '" ++ source ++ "' to a subdirectory of itself, '" ++ target ++ "'"
  | .copyIntoItself source target =>
    "cannot copy '" ++ source ++ "' into itself, '" ++ target ++ "'"
  | .snapshotRoot => "serialized root must be a directory"
  | .snapshotEntry detail => "malformed snapshot entry: " ++ detail
  | .snapshotWithoutRoot => "'root'"
  | .within command fault => command ++ ": " ++ fault.message
  | .cannot attempt place fault =>
    attempt ++ " '" ++ place ++ "': " ++ match fault with
      | .path trouble _ => trouble.reason
      | other => other.message
  | .failed command fault => command ++ ": " ++ fault.message
  | .unknownCommand name => name ++ ": command not found"
  | .missingOperand command what => command ++ ": " ++ what
  | .refused message => message
  | .broken message => message
  | .usage command complaint form => command ++ ": " ++ complaint ++ "\n" ++ form
  | .unsupportedScript script => "sed: unsupported command: " ++ script
  | .badExpression context detail => context ++ ": " ++ detail
  | .badReplacement detail => detail
  | .openQuote style position =>
    "syntax error: unterminated " ++ style.label ++ " quote at position " ++ Text.ofNat position
  | .missingTarget operator =>
    "syntax error near unexpected token `newline' after '" ++ operator ++ "'"
  | .bodylessHeredoc => "HEREDOC requires multi-line input"
  | .commandlessHeredoc => "syntax error: heredoc without a command"
  | .noPatch => "patch: only garbage was found in the patch input"
  | .malformedPatch detail => "patch: " ++ detail
  | .hunkFailed number line =>
    "patch: Hunk #" ++ Text.ofNat number ++ " FAILED at " ++ Text.ofInt line
  | .host trouble shown =>
    "[Errno " ++ Text.ofNat trouble.code ++ "] " ++ trouble.reason ++ ": " ++ shown
  | .unencodable position surrogates =>
    "'utf-8' codec can't encode " ++ (match surrogates with
      | [c] => "character " ++ Text.quoted [c] ++ " in position " ++ Text.ofNat position
      | _ => "characters in position " ++ Text.ofNat position ++ "-" ++
        Text.ofNat (position + surrogates.length - 1)) ++ ": surrogates not allowed"

/-- The kinds that a caller can tell apart. -/
inductive Kind where
  | general
  | path (trouble : PathTrouble)
  | unknownCommand
  | missingOperand
  | malformedScript
  | badReplacement
  | badLine
  | openQuote
  | unknownPatch
  | malformedPatch
  | hunkFailed
  | broken
  | missingKey
  | host (trouble : HostTrouble)
  | unencodable
  deriving DecidableEq

/-- The kind of a fault. A command that passes on a fault keeps its kind. -/
def kind : Fault → Kind
  | .path trouble _ | .pathNote trouble _ => .path trouble
  | .rootRemoval | .rootMove | .moveIntoItself .. | .copyIntoItself ..
  | .snapshotRoot | .snapshotEntry _ => .path .invalid
  | .snapshotWithoutRoot => .missingKey
  | .within _ fault | .cannot _ _ fault => fault.kind
  | .failed .. | .refused _ | .usage .. => .general
  | .unknownCommand _ => .unknownCommand
  | .missingOperand .. => .missingOperand
  | .broken _ => .broken
  | .unsupportedScript _ | .badExpression .. => .malformedScript
  | .badReplacement _ => .badReplacement
  | .openQuote .. => .openQuote
  | .missingTarget _ | .bodylessHeredoc | .commandlessHeredoc => .badLine
  | .noPatch => .unknownPatch
  | .malformedPatch _ => .malformedPatch
  | .hunkFailed .. => .hunkFailed
  | .host trouble _ => .host trouble
  | .unencodable .. => .unencodable

/-- A fault in other words. That a text has no bytes is passed on as it is. -/
def reworded (words : Fault → Fault) : Fault → Fault
  | .unencodable position surrogates => .unencodable position surrogates
  | fault => words fault

end Fault

/-- The number of bytes of a text, which has none where it holds a surrogate. -/
def Text.measure (t : Text) : Except Fault Nat :=
  match t.surrogates? with
  | some (position, run) => .error (.unencodable position run)
  | none => .ok t.byteCount

end TreeShell
