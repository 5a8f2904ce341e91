import TreeShell.Fault
import TreeShell.Regex.Matcher
import TreeShell.Regex.Reader
import TreeShell.Text.Digit

/-! Substitution scripts, written `s/EXPRESSION/REPLACEMENT/FLAGS` with any delimiter in
place of the slash. A replacement names groups of the match by digits; a digit that names
no group is only noticed when the script is used, and then whether anything matches or not. -/
namespace TreeShell.Sed

/-- A part of a replacement: a character, or what the group named by a digit matched. -/
inductive Piece where
  | char (c : CodePoint)
  | group (digit : CodePoint)
  deriving DecidableEq

structure Script where
  expression : Text
  pattern : Pattern
  replacement : List Piece
  /-- Every match is replaced, not only the first of a line. -/
  everywhere : Bool
  /-- A line with a replacement is printed once more. -/
  prints : Bool

def addToFirst (c : CodePoint) : List Text → List Text
  | [] => [[c]]
  | field :: fields => (c :: field) :: fields

/-- Divides a text at a delimiter. A backslash in front of the delimiter keeps the field
whole and is dropped. -/
def fields (delimiter : CodePoint) : Text → List Text
  | [] => [[]]
  | [c] => if c = delimiter then [[], []] else [[c]]
  | a :: b :: rest =>
    if a = '\\' ∧ b = delimiter then addToFirst b (fields delimiter rest)
    else if a = delimiter then [] :: fields delimiter (b :: rest)
    else addToFirst a (fields delimiter (b :: rest))

def escaped (c : CodePoint) : Piece :=
  if Text.isDigitLike c then .group c else if c = 'n' then .char (chr '\n') else .char c

/-- The parts of a replacement. An ampersand stands for the whole match. -/
def pieces : Text → List Piece
  | [] => []
  | [c] => [if c = '&' then .group (chr '0') else .char c]
  | a :: b :: rest =>
    if a = '\\' then escaped b :: pieces rest
    else (if a = '&' then .group (chr '0') else .char a) :: pieces (b :: rest)

/-- The written form of a part, in which a backslash is doubled. -/
def Piece.template : Piece → Text
  | .char c => if c = '\\' then [chr '\\', chr '\\'] else [c]
  | .group digit => [chr '\\', chr 'g', chr '<', digit, chr '>']

def template (replacement : List Piece) : Text := replacement.flatMap Piece.template

/-- Refuses a digit that names no group. The position is that of the digit in the written
form, of which `position` characters stand before these parts. -/
def checkFrom (groups position : Nat) : List Piece → Except RegexError Unit
  | [] => .ok ()
  | piece :: rest =>
    let next := checkFrom groups (position + piece.template.length) rest
    match piece with
    | .char _ => next
    | .group digit =>
      match Text.digitValue? digit with
      | none => .error ⟨"bad character in group name '" ++ [digit, chr '\''], position + 3⟩
      | some number =>
        if number ≤ groups then next
        else .error ⟨"invalid group reference " ++ Text.ofNat number, position + 3⟩

def Script.check (script : Script) : Except Fault Unit :=
  match checkFrom script.pattern.groups 0 script.replacement with
  | .ok () => .ok ()
  | .error error => .error (.badReplacement (error.message (template script.replacement)))

def Piece.fill (found : Regex.Match) : Piece → Text
  | .char c => [c]
  | .group digit => found.group ((Text.digitValue? digit).getD 0)

def fill (replacement : List Piece) (found : Regex.Match) : Text :=
  replacement.flatMap (Piece.fill found)

def isReserved (c : CodePoint) : Bool :=
  Text.isAlphanumeric c || c == ' ' || c == '\\' || c == '\n'

def Script.parse (script : Text) : Except Fault Script :=
  match script with
  | 's' :: delimiter :: rest =>
    match isReserved delimiter, fields delimiter rest with
    | false, [expression, replacement, flags] =>
      if expression.isEmpty || !flags.all (("gip" : Text).contains ·) then
        .error (.unsupportedScript script)
      else match Regex.parse (flags.contains (chr 'i')) expression with
        | .ok pattern =>
          .ok ⟨expression, pattern, pieces replacement, flags.contains (chr 'g'), flags.contains (chr 'p')⟩
        | .error error =>
          .error (.badExpression ("sed: invalid regular expression '" ++ expression ++ [chr '\''])
            (error.message expression))
    | _, _ => .error (.unsupportedScript script)
  | _ => .error (.unsupportedScript script)

def Script.hits (script : Script) (line : Text) : List Regex.Match :=
  if script.everywhere then Regex.allMatches script.pattern line
  else Regex.firstMatch script.pattern line

/-- What scripts make of a line, in order, and the lines that they print on the way. -/
def editLine (quiet : Bool) (line : Text) : List Script → List Text
  | [] => if quiet then [] else [line]
  | script :: rest =>
    let found := script.hits line
    let edited := Regex.replaceMatches (fill script.replacement) 0 line found
    (if script.prints && !found.isEmpty then [edited] else []) ++ editLine quiet edited rest

/-- What scripts make of a text, line by line. -/
def edit (quiet : Bool) (scripts : List Script) (t : Text) : Except Fault Text := do
  scripts.forM Script.check
  return Text.joinLines ((t.splitOn (chr '\n')).flatMap fun line => editLine quiet line scripts)

end TreeShell.Sed
