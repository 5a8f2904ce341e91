import TreeShell.Line.Heredoc
import TreeShell.Line.Segment

/-! The segments that a command with a body stands for, together with what was written
behind its delimiter. -/
namespace TreeShell.Heredoc

/-- Adds words to the command at the end of the pipe that a list of segments begins with. -/
def addToPipeEnd (words : List Word) : List Segment → List Segment
  | [] => []
  | [last] => [{ last with command := last.command ++ words }]
  | segment :: next :: rest =>
    if segment.joint = .pipe then segment :: addToPipeEnd words (next :: rest)
    else { segment with command := segment.command ++ words } :: next :: rest

/-- The segments of a command with a body. When a pipe follows the delimiter, the
redirections before the delimiter apply to the end of the pipe; otherwise what follows
belongs to the command itself. -/
def segments (d : Heredoc) : Except Fault (List Segment) := do
  let words := d.redirections.flatMap Redirection.toWords
  match Text.strip (d.redirect.getD []) with
  | '|' :: rest =>
    match Segment.group (← lineWords rest) with
    | [] => return [⟨.close, d.command ++ words, some d.content⟩]
    | following => return ⟨.pipe, d.command, some d.content⟩ :: addToPipeEnd words following
  | redirect =>
    match Segment.group (← lineWords redirect) with
    | [] => return [⟨.close, d.command ++ words, some d.content⟩]
    | next :: following =>
      return ⟨next.joint, d.command ++ words ++ next.command, some d.content⟩ :: following

end TreeShell.Heredoc
