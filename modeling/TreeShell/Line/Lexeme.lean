import TreeShell.Fault
import TreeShell.Line.Word

/-! The division of a command line into words and operators. The reader is a machine that
takes one character at a time; the mode says what the character is part of. Blanks and
operators end a word, quotes and backslashes keep them inside, and a command in `$(…)`
stays in one piece. An end of line separates commands as a semicolon does. -/
namespace TreeShell

/-- A word or an operator with the position of its first character. -/
inductive Lexeme where
  | operator (op : Operator) (position : Nat)
  | word (word : Word) (position : Nat) (quoted : Bool)
  deriving DecidableEq

namespace Lexeme

def position : Lexeme → Nat
  | .operator _ position => position
  | .word _ position _ => position

def toWord : Lexeme → Word
  | .operator op _ => .plain op.text
  | .word w _ _ => w

/-- The word at hand: where it begins, its letters so far with the last one first, and
whether a part of it was quoted. -/
structure Draft where
  start : Nat
  letters : Text
  quoted : Bool

def Draft.push (w : Draft) (c : CodePoint) : Draft := { w with letters := c :: w.letters }

def Draft.quote (w : Draft) : Draft := { w with quoted := true }

/-- The finished word. Quoting marks it literal if it could be taken for something else. -/
def Draft.finish (w : Draft) : Lexeme :=
  let text := w.letters.reverse
  .word ⟨text, w.quoted && ((Operator.ofText? text).isSome || hasGlob text)⟩ w.start w.quoted

/-- What the next character is part of. -/
inductive Mode where
  /-- Nothing: no word has begun. -/
  | between
  /-- An operator that has been recorded and has this many characters left. -/
  | inOperator (left : Nat)
  | inWord (w : Draft)
  /-- A word, right after a backslash. -/
  | escaped (w : Draft)
  | inSingle (w : Draft) (opened : Nat)
  | inDouble (w : Draft) (opened : Nat)
  /-- Double quotes, right after a backslash that escapes. -/
  | escapedInDouble (w : Draft) (opened : Nat)
  /-- A command in `$(…)`, with the quote around it and the number of open parentheses. -/
  | inCommand (w : Draft) (opened : Option Nat) (depth : Nat)

def isSeparator (c : CodePoint) : Bool := c == ' ' || c == '\t' || c == '\r'

def escapable (c : CodePoint) : Bool := ("\\\"$`" : Text).contains c

/-- Whether a word ends before a character. A redirection that begins with a digit only
counts at the beginning of a word. -/
def endsWord (c : CodePoint) (rest : Text) : Bool :=
  isSeparator c || c == '\n' || (c != '2' && (Operator.read? (c :: rest)).isSome)

def stepWord (w : Draft) (position : Nat) (c : CodePoint) (rest : Text) : Mode :=
  if c == '\\' then .escaped w.quote
  else if c == '\'' then .inSingle w.quote position
  else if c == '"' then .inDouble w.quote position
  else if c == '$' && rest.head? == some (chr '(') then .inCommand (w.push c) none 0
  else .inWord (w.push c)

def stepBetween (position : Nat) (c : CodePoint) (rest : Text) : List Lexeme × Mode :=
  if isSeparator c then ([], .between)
  else if c == '\n' then ([.operator .sequence position], .between)
  else match Operator.read? (c :: rest) with
    | some op =>
      let left := op.text.length - 1
      ([.operator op position], if left = 0 then .between else .inOperator left)
    | none => ([], stepWord ⟨position, [], false⟩ position c rest)

def leaveCommand (w : Draft) : Option Nat → Mode
  | none => .inWord w
  | some opened => .inDouble w opened

/-- One character: the lexemes that it completes and the mode after it. -/
def step (mode : Mode) (position : Nat) (c : CodePoint) (rest : Text) : List Lexeme × Mode :=
  match mode with
  | .between => stepBetween position c rest
  | .inOperator left => ([], if left ≤ 1 then .between else .inOperator (left - 1))
  | .inWord w =>
    if endsWord c rest then
      let (found, mode) := stepBetween position c rest
      (w.finish :: found, mode)
    else ([], stepWord w position c rest)
  | .escaped w => ([], .inWord (w.push c))
  | .inSingle w opened => ([], if c == '\'' then .inWord w else .inSingle (w.push c) opened)
  | .inDouble w opened =>
    ([], if c == '"' then .inWord w
      else if c == '\\' && rest.head?.any escapable then .escapedInDouble w opened
      else if c == '$' && rest.head? == some (chr '(') then .inCommand (w.push c) (some opened) 0
      else .inDouble (w.push c) opened)
  | .escapedInDouble w opened => ([], .inDouble (w.push c) opened)
  | .inCommand w opened depth =>
    let depth := if c == '(' then depth + 1 else if c == ')' then depth - 1 else depth
    ([], if depth = 0 then leaveCommand (w.push c) opened else .inCommand (w.push c) opened depth)

/-- The end of the line. A quote that is still open is an error. -/
def finish : Mode → Except Fault (List Lexeme)
  | .between | .inOperator _ => .ok []
  | .inWord w | .escaped w | .inCommand w none _ => .ok [w.finish]
  | .inSingle _ opened => .error (.openQuote .single opened)
  | .inDouble _ opened | .escapedInDouble _ opened | .inCommand _ (some opened) _ =>
    .error (.openQuote .double opened)

def readFrom (mode : Mode) (position : Nat) : Text → Except Fault (List Lexeme)
  | [] => finish mode
  | c :: rest =>
    let (found, mode) := step mode position c rest
    (readFrom mode (position + 1) rest).map (found ++ ·)

def read (line : Text) : Except Fault (List Lexeme) := readFrom .between 0 line

end Lexeme

def lineWords (line : Text) : Except Fault (List Word) :=
  (Lexeme.read line).map (·.map Lexeme.toWord)

end TreeShell
