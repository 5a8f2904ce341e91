import TreeShell.Text

/-! The words of a command line and the operators among them. A word that was quoted and
looks like an operator or a pattern is marked literal; from then on it is plain text. -/
namespace TreeShell

/-- The redirections that name a target. -/
inductive Redirector where
  | input
  | heredoc
  | output
  | append
  | errors
  | errorsAppend
  | all
  deriving DecidableEq

/-- The operators of a command line. -/
inductive Operator where
  | pipe
  | and
  | or
  | sequence
  | redirect (how : Redirector)
  | mergeErrors
  deriving DecidableEq

def Redirector.text : Redirector → Text
  | .input => [chr '<']
  | .heredoc => [chr '<', chr '<']
  | .output => [chr '>']
  | .append => [chr '>', chr '>']
  | .errors => [chr '2', chr '>']
  | .errorsAppend => [chr '2', chr '>', chr '>']
  | .all => [chr '&', chr '>']

namespace Operator

def text : Operator → Text
  | .pipe => [chr '|']
  | .and => [chr '&', chr '&']
  | .or => [chr '|', chr '|']
  | .sequence => [chr ';']
  | .redirect how => how.text
  | .mergeErrors => [chr '2', chr '>', chr '&', chr '1']

/-- Every operator; one that begins with another stands before it. -/
def every : List Operator :=
  [.mergeErrors, .redirect .errorsAppend, .and, .or, .redirect .append, .redirect .heredoc,
    .redirect .errors, .redirect .all, .pipe, .sequence, .redirect .output, .redirect .input]

def read? (t : Text) : Option Operator := every.find? fun op => op.text.isPrefixOf t

def ofText? (t : Text) : Option Operator := every.find? fun op => op.text == t

end Operator

/-- A word of a command line. -/
structure Word where
  text : Text
  literal : Bool
  deriving DecidableEq

namespace Word

def plain (t : Text) : Word := ⟨t, false⟩

/-- The operator that a word stands for; a literal word stands for none. -/
def operator? (w : Word) : Option Operator :=
  if w.literal then none else Operator.ofText? w.text

def isOperator (w : Word) : Bool := w.operator?.isSome

end Word

def isGlobChar (c : CodePoint) : Bool := c == '*' || c == '?' || c == '['

def hasGlob (t : Text) : Bool := t.any isGlobChar

end TreeShell
