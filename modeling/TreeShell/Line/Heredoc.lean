import TreeShell.Line.Lexeme
import TreeShell.Line.Redirection
import TreeShell.Text.Blank

/-! Heredocs: a command whose input stands on the lines after it, up to a line that
repeats a delimiter. A block of lines is divided into the text before the command, the
command, its body and the text after the closing line. -/
namespace TreeShell

/-- The line that announces a body. -/
structure HeredocHeader where
  command : Text
  delimiter : Text
  stripTabs : Bool
  rest : Text
  deriving DecidableEq

namespace HeredocHeader

def endsDelimiter (c : CodePoint) : Bool := Text.isBlank c || (";|&<>" : Text).contains c

/-- A delimiter without quotes around it, and what follows it. -/
def bareDelimiter? (t : Text) : Option (Text × Text) :=
  let name := t.takeWhile (!endsDelimiter ·)
  if name.isEmpty then none else some (name, t.dropWhile (!endsDelimiter ·))

/-- A delimiter with its quotes taken off, and what follows it. A quote that is not closed
is part of the name. -/
def delimiter? (t : Text) : Option (Text × Text) :=
  match t with
  | c :: rest =>
    if c == '\'' || c == '"' then
      match Text.breakOn? c rest with
      | some found => some found
      | none => bareDelimiter? t
    else bareDelimiter? t
  | [] => none

/-- A delimiter after blanks, together with the choice about tabs. -/
def delimiterAfterBlanks? (stripTabs : Bool) (t : Text) : Option (Bool × Text × Text) :=
  (delimiter? (t.dropWhile Text.isBlank)).map fun (name, rest) => (stripTabs, name, rest)

/-- What stands after `<<`: whether tabs are stripped, the delimiter, and what follows it.
A dash that no delimiter follows is the delimiter. -/
def afterOperator? (t : Text) : Option (Bool × Text × Text) :=
  match t with
  | '-' :: rest =>
    match delimiterAfterBlanks? true rest with
    | some found => some found
    | none => delimiterAfterBlanks? false t
  | _ => delimiterAfterBlanks? false t

/-- Where the command before the first `<<` begins, and where that `<<` stands. The command
begins after the last separator before it. -/
def locateIn (start : Nat) : List Lexeme → Option (Nat × Nat)
  | [] => none
  | .operator .sequence position :: rest => locateIn (position + 1) rest
  | .operator (.redirect .heredoc) position :: _ => some (start, position)
  | _ :: rest => locateIn start rest

/-- The header in a text whose command begins at `start` and whose `<<` stands at `position`. -/
def at? (t : Text) (start position : Nat) : Option HeredocHeader :=
  let after := t.drop (position + 2)
  let command := Text.strip ((t.take position).drop start)
  if after.head? = some (chr '<') ∨ command.isEmpty then none
  else (afterOperator? after).map fun (stripTabs, delimiter, rest) =>
    ⟨command, delimiter, stripTabs, Text.strip (rest.takeWhile (· != '\n'))⟩

/-- The header that a line is, if it is one. -/
def ofLine? (line : Text) : Option HeredocHeader :=
  match Lexeme.read line with
  | .ok lexemes => locateIn 0 lexemes >>= fun (_, position) => at? line 0 position
  | .error _ => none

/-- A line of the body, without the tabs in front if they are to be stripped. -/
def bodyLine (header : HeredocHeader) (line : Text) : Text :=
  if header.stripTabs then line.dropWhile (· == '\t') else line

/-- What follows the delimiter on a line that closes the body. -/
def closing? (header : HeredocHeader) (line : Text) : Option Text :=
  let candidate := header.bodyLine line
  if Text.stripEnd candidate == header.delimiter then some []
  else match Text.dropStart? header.delimiter candidate with
    | some (c :: rest) => if c == ' ' || c == '\t' then some (Text.strip (c :: rest)) else none
    | _ => none

/-- The lines after a header, divided: the body, and what follows the delimiter together
with the lines after the closing line, `none` when no line closes the body. -/
def divide (header : HeredocHeader) : List Text → List Text × Option (Text × List Text)
  | [] => ([], none)
  | line :: rest =>
    match header.closing? line with
    | some after => ([], some (after, rest))
    | none =>
      let (body, closed) := header.divide rest
      (header.bodyLine line :: body, closed)

end HeredocHeader

/-- The body that follows a header among lines: the number of its last line is `last`. -/
structure HeredocContent where
  command : Text
  content : Text
  last : Int
  closed : Bool
  deriving DecidableEq

/-- The body for the header at a line. A negative number counts lines from the end; the
lines after the header are then followed by all lines. -/
def HeredocContent.ofLines? (lines : List Text) (start : Int) : Option HeredocContent :=
  if start < lines.length ∧ -start ≤ lines.length then do
    let index := if start < 0 then (lines.length + start).toNat else start.toNat
    let header ← lines[index]? >>= HeredocHeader.ofLine?
    let rest := lines.drop (index + 1) ++ (if start < 0 then lines else [])
    let (body, closed) := header.divide rest
    return {
      command := header.command
      content := Text.joinLines body
      last := if closed.isSome then start + 1 + body.length else lines.length - 1
      closed := closed.isSome }
  else none

/-- A block of lines around a command with a body. -/
structure Heredoc where
  /-- The words of the command. -/
  command : List Word
  content : Text
  /-- What was written after the delimiter, on either of its lines. -/
  redirect : Option Text
  /-- The redirections written before the delimiter. -/
  redirections : List Redirection
  /-- The text before the command. -/
  lead : Text
  /-- The text after the closing line. -/
  trail : Text
  closed : Bool
  deriving DecidableEq

namespace Heredoc

/-- Whether a text has more than one line and may hold a heredoc. -/
def isPossible (t : Text) : Bool := Text.occursIn [chr '<', chr '<'] t && t.contains (chr '\n')

/-- The first header among lines, with the text before it and the lines after it. Lines
that leave a quote open are held back and read together with the following ones. -/
def findHeader? (before held : List Text) :
    List Text → Option (List Text × HeredocHeader × List Text)
  | [] => none
  | line :: rest =>
    let candidate := Text.joinLines (held ++ [line])
    match Lexeme.read candidate with
    | .error _ => findHeader? before (held ++ [line]) rest
    | .ok lexemes =>
      match HeredocHeader.locateIn 0 lexemes with
      | none => findHeader? (before ++ [candidate]) [] rest
      | some (start, position) =>
        match HeredocHeader.at? candidate start position with
        | none => findHeader? (before ++ [candidate]) [] rest
        | some header =>
          some (before ++ (if start = 0 then [] else [candidate.take (start - 1)]), header, rest)

/-- The heredoc in a text, if there is one. -/
def parse (t : Text) : Except Fault (Option Heredoc) :=
  match findHeader? [] [] (t.splitOn (chr '\n')) with
  | none => .ok none
  | some (lead, header, rest) => do
    let (body, closed) := header.divide rest
    let (command, redirections) ← takeRedirections (← lineWords header.command)
    let (after, trail) := closed.getD ([], [])
    let parts := [header.rest, after].filter (!·.isEmpty)
    return some {
      command := command
      content := Text.joinLines body
      redirect := if parts.isEmpty then none else some (Text.join [chr ' '] parts)
      redirections := redirections
      lead := Text.joinLines lead
      trail := Text.joinLines trail
      closed := closed.isSome }

end Heredoc

end TreeShell
