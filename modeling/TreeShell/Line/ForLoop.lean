import TreeShell.Text.Alphanumeric
import TreeShell.Text.Blank

/-! Loops `for NAME in ITEMS; do BODY; done` on one or several lines. ITEMS and BODY end
at the first place where the rest of the line can be read. -/
namespace TreeShell

structure ForLoop where
  name : Text
  items : Text
  body : Text
  deriving DecidableEq

namespace ForLoop

def shortest? {α : Type} (accept : Text → Option α) : Text → Option (Text × α)
  | [] => (accept []).map fun a => ([], a)
  | c :: rest =>
    match accept (c :: rest) with
    | some a => some ([], a)
    | none => (shortest? accept rest).map fun (front, a) => (c :: front, a)

/-- The first acceptable remainder after at least one blank; as many blanks as possible
are passed over. -/
def afterBlanks? {α : Type} (accept : Text → Option α) : Text → Option α
  | [] => none
  | c :: rest =>
    if Text.isBlank c then
      match afterBlanks? accept rest with
      | some a => some a
      | none => accept rest
    else none

/-- What follows a separator, which is a semicolon or an end of line with blanks around. -/
def afterSeparator? (t : Text) : Option Text :=
  match t.dropWhile Text.isBlank with
  | ';' :: rest => some (rest.dropWhile Text.isBlank)
  | rest => if (t.takeWhile Text.isBlank).contains (chr '\n') then some rest else none

def isEnd (t : Text) : Bool := afterSeparator? t == some "done"

/-- The body of a loop, read after its items. -/
def body? (t : Text) : Option Text := do
  let rest ← afterSeparator? t
  let rest ← Text.dropStart? "do" rest
  let front? (t : Text) := shortest? (fun back => if isEnd back then some () else none) t
  let (body, _) ← afterBlanks? front? rest
  return body

/-- The items and the body of a loop; there is at least one character of items. -/
def itemsAndBody? : Text → Option (Text × Text)
  | [] => none
  | c :: rest => (shortest? body? rest).map fun (items, body) => (c :: items, body)

/-- Passes over blanks, of which there has to be one. -/
def skipBlanks? : Text → Option Text
  | c :: rest => if Text.isBlank c then some (rest.dropWhile Text.isBlank) else none
  | [] => none

def takeName? (t : Text) : Option (Text × Text) :=
  let name := t.takeWhile Text.isWordChar
  if name.isEmpty then none else some (name, t.dropWhile Text.isWordChar)

def read? (line : Text) : Option ForLoop := do
  let rest ← Text.dropStart? "for" line >>= skipBlanks?
  let (name, rest) ← takeName? rest
  let rest ← skipBlanks? rest >>= Text.dropStart? "in"
  let (items, body) ← afterBlanks? itemsAndBody? rest
  return ⟨name, items, body⟩

/-- The loop that a line is, if it is one. -/
def ofLine? (line : Text) : Option ForLoop := read? (Text.strip line)

/-- Replaces each occurrence of `part` whose remainder is accepted, from left to right;
`skip` characters belong to an occurrence. -/
def replaceFrom (part value : Text) (accept : Text → Bool) (skip : Nat) : Text → Text
  | [] => []
  | c :: rest =>
    if skip ≠ 0 then replaceFrom part value accept (skip - 1) rest
    else match Text.dropStart? part (c :: rest) with
      | some after =>
        if accept after then value ++ replaceFrom part value accept (part.length - 1) rest
        else c :: replaceFrom part value accept 0 rest
      | none => c :: replaceFrom part value accept 0 rest

def endsName (t : Text) : Bool := !t.head?.any Text.isWordChar

/-- The body for one item: the variable, with braces first and then without, is replaced. -/
def bodyFor (loop : ForLoop) (item : Text) : Text :=
  let braced := replaceFrom ("$\x7b" ++ loop.name ++ "\x7d") item (fun _ => true) 0 loop.body
  replaceFrom (chr '$' :: loop.name) item endsName 0 braced

/-- A character that makes the items go through an expansion before they are divided. -/
def expandsItems (c : CodePoint) : Bool := c == '*' || c == '?' || c == '$'

def needsExpansion (loop : ForLoop) : Bool := loop.items.any expandsItems

def itemsLine (loop : ForLoop) : Text := "echo " ++ Text.strip loop.items

end ForLoop

end TreeShell
