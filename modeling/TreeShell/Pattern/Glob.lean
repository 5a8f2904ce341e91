import TreeShell.Text

/-! Patterns for names: `*` for any text, `?` for any character, `[…]` for a character of
a set. The whole name has to match. -/
namespace TreeShell.Glob

inductive Piece where
  | star
  | any
  | char (c : CodePoint)
  /-- A character inside the ranges, or outside of them. -/
  | set (negated : Bool) (ranges : List (CodePoint × CodePoint))
  deriving DecidableEq

/-- The characters up to the bracket that closes a set. A bracket right at the beginning,
also after the mark of negation, is a member. -/
def bracket? (t : Text) : Option (Text × Text) :=
  let (mark, t) := match t with
    | '!' :: rest => ([chr '!'], rest)
    | _ => ([], t)
  let (first, t) := match t with
    | ']' :: rest => ([chr ']'], rest)
    | _ => ([], t)
  (Text.breakOn? (chr ']') t).map fun (members, rest) => (mark ++ first ++ members, rest)

/-- Divides the members of a set at the hyphens that make ranges: `skip` characters are
passed over before the next hyphen counts. -/
def chunksFrom (skip : Nat) (chunk : Text) : Text → List Text
  | [] => [chunk.reverse]
  | c :: rest =>
    if skip = 0 && c == '-' then chunk.reverse :: chunksFrom 2 [] rest
    else chunksFrom (skip - 1) (c :: chunk) rest

/-- The chunks between the hyphens that make ranges. A hyphen at the very end is a member. -/
def chunks (members : Text) : List Text :=
  let skip := if members.head? == some (chr '!') then 2 else 1
  match (chunksFrom skip [] members).reverse with
  | [] :: last :: before => ((last ++ [chr '-']) :: before).reverse
  | found => found.reverse

/-- Joins neighbouring chunks whose range would be empty, leaving out its two ends. -/
def dropEmptyRanges : List Text → List Text
  | [] => []
  | chunk :: rest =>
    match dropEmptyRanges rest with
    | [] => [chunk]
    | next :: later =>
      match chunk.getLast?, next.head? with
      | some low, some high =>
        if high.toNat < low.toNat then (chunk.dropLast ++ next.tail) :: later
        else chunk :: next :: later
      | _, _ => chunk :: next :: later

/-- The ranges that chunks stand for: every character by itself, and from the last
character of a chunk to the first of the next. -/
def ranges : List Text → List (CodePoint × CodePoint)
  | [] => []
  | [chunk] => chunk.map fun c => (c, c)
  | chunk :: next :: rest =>
    chunk.map (fun c => (c, c)) ++
      (match chunk.getLast?, next.head? with
        | some low, some high => [(low, high)]
        | _, _ => [(chr '-', chr '-')]) ++
      ranges (next :: rest)

def setOf (members : Text) : Piece :=
  let kept := if members.contains (chr '-') then dropEmptyRanges (chunks members) else [members]
  match kept with
  | ('!' :: chunk) :: rest => .set true (ranges (chunk :: rest))
  | _ => .set false (ranges kept)

/-- Reads a pattern; `skip` characters belong to a set. A bracket that is never closed is
an ordinary character. -/
def piecesFrom (skip : Nat) : Text → List Piece
  | [] => []
  | c :: rest =>
    if skip ≠ 0 then piecesFrom (skip - 1) rest
    else if c == '*' then .star :: piecesFrom 0 rest
    else if c == '?' then .any :: piecesFrom 0 rest
    else if c == '[' then
      match bracket? rest with
      | some (members, _) => setOf members :: piecesFrom (members.length + 1) rest
      | none => .char c :: piecesFrom 0 rest
    else .char c :: piecesFrom 0 rest

def pieces (pattern : Text) : List Piece := piecesFrom 0 pattern

/-- Whether a remainder of a text is accepted, the text itself included. -/
def someTail (accept : Text → Bool) : Text → Bool
  | [] => accept []
  | c :: rest => accept (c :: rest) || someTail accept rest

def inRanges (ranges : List (CodePoint × CodePoint)) (c : CodePoint) : Bool :=
  ranges.any fun (low, high) => low.toNat ≤ c.toNat && c.toNat ≤ high.toNat

def matchPieces : List Piece → Text → Bool
  | [], t => t.isEmpty
  | .star :: rest, t => someTail (matchPieces rest) t
  | .any :: rest, _ :: t => matchPieces rest t
  | .char p :: rest, c :: t => p == c && matchPieces rest t
  | .set negated ranges :: rest, c :: t => inRanges ranges c != negated && matchPieces rest t
  | _ :: _, [] => false

def isMatch (pattern name : Text) : Bool := matchPieces (pieces pattern) name

end TreeShell.Glob
