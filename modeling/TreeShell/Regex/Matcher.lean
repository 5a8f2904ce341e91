import TreeShell.Regex.Basic
import TreeShell.Regex.CaseForms
import TreeShell.Text.Alphanumeric
import TreeShell.Text.Blank
import TreeShell.Text.Digit

/-! Matching by trying: the alternatives of an expression are tried in order, and what
follows an expression decides whether an attempt counts. The recursion is on the
expression; a loop is bounded by what it has to repeat and by what is left of the text,
because it is not entered again where its last round began. -/
namespace TreeShell.Regex

/-- A place in a text: the character before it, its position, and what follows it. -/
structure Cursor where
  previous : Option CodePoint
  position : Nat
  rest : Text

/-- What the groups have matched so far, latest first. -/
abbrev Captures := List (Nat × Text)

/-- What follows an expression: it accepts a place or refuses it. -/
abbrev Continuation := Cursor → Captures → Option (Cursor × Captures)

def Cursor.step (cursor : Cursor) (c : CodePoint) (rest : Text) : Cursor :=
  ⟨some c, cursor.position + 1, rest⟩

def CharClass.holds : CharClass → CodePoint → Bool
  | .digit, c => Text.isDecimalDigit c
  | .blank, c => Text.isBlank c
  | .word, c => Text.isWordChar c

def SetItem.holds (ignoreCase : Bool) : SetItem → CodePoint → Bool
  | .named which negated, c => CharClass.holds which c != negated
  | .range low high, c =>
    let within (c : CodePoint) : Bool := low.toNat ≤ c.toNat && c.toNat ≤ high.toNat
    within c || (ignoreCase && (caseForms c).any within)

def Anchor.holds (cursor : Cursor) : Anchor → Bool
  | .lineStart | .textStart => cursor.position == 0
  | .lineEnd => cursor.rest.isEmpty || cursor.rest == [chr '\n']
  | .textEnd => cursor.rest.isEmpty
  | .wordEdge => cursor.previous.any Text.isWordChar != cursor.rest.head?.any Text.isWordChar
  | .noWordEdge =>
    (cursor.previous.isSome || !cursor.rest.isEmpty) &&
      cursor.previous.any Text.isWordChar == cursor.rest.head?.any Text.isWordChar

/-- Whether another round is allowed. -/
def belowMost (most : Option Nat) (count : Nat) : Bool := most.all (count < ·)

/-- Rounds of a loop that takes as much as possible. -/
def greedyLoop (body : Cursor → Captures → Continuation → Option (Cursor × Captures))
    (least : Nat) (most : Option Nat) (k : Continuation) :
    (bound count : Nat) → (last : Option Nat) → Continuation
  | 0, _, _, _, _ => none
  | bound + 1, count, last, cursor, captures =>
    if count < least then
      body cursor captures (greedyLoop body least most k bound (count + 1) last)
    else
      let again :=
        if belowMost most count && last != some cursor.position then
          body cursor captures
            (greedyLoop body least most k bound (count + 1) (some cursor.position))
        else none
      match again with
      | some found => some found
      | none => k cursor captures

/-- Rounds of a loop that takes as little as possible. -/
def lazyLoop (body : Cursor → Captures → Continuation → Option (Cursor × Captures))
    (least : Nat) (most : Option Nat) (k : Continuation) :
    (bound count : Nat) → (last : Option Nat) → Continuation
  | 0, _, _, _, _ => none
  | bound + 1, count, last, cursor, captures =>
    if count < least then
      body cursor captures (lazyLoop body least most k bound (count + 1) last)
    else match k cursor captures with
      | some found => some found
      | none =>
        if belowMost most count && last != some cursor.position then
          body cursor captures
            (lazyLoop body least most k bound (count + 1) (some cursor.position))
        else none

def Cursor.over (ignoreCase : Bool) : Text → Cursor → Option Cursor
  | [], cursor => some cursor
  | p :: part, cursor =>
    match cursor.rest with
    | [] => none
    | c :: rest =>
      if p == c || (ignoreCase && Text.lowerChar p == Text.lowerChar c) then
        Cursor.over ignoreCase part (cursor.step c rest)
      else none

/-- Matches an expression at a place and goes on with what follows. -/
def run (ignoreCase : Bool) : Regex → Cursor → Captures → Continuation → Option (Cursor × Captures)
  | .empty, cursor, captures, k => k cursor captures
  | .char p, cursor, captures, k =>
    match cursor.rest with
    | c :: rest =>
      if p == c || (ignoreCase && sameLetter p c) then k (cursor.step c rest) captures else none
    | [] => none
  | .any, cursor, captures, k =>
    match cursor.rest with
    | c :: rest => if c != '\n' then k (cursor.step c rest) captures else none
    | [] => none
  | .set negated items, cursor, captures, k =>
    match cursor.rest with
    | c :: rest =>
      if items.any (SetItem.holds ignoreCase · c) != negated then k (cursor.step c rest) captures
      else none
    | [] => none
  | .anchor which, cursor, captures, k =>
    if Anchor.holds cursor which then k cursor captures else none
  | .seq first second, cursor, captures, k =>
    run ignoreCase first cursor captures fun cursor captures =>
      run ignoreCase second cursor captures k
  | .alt first second, cursor, captures, k =>
    match run ignoreCase first cursor captures k with
    | some found => some found
    | none => run ignoreCase second cursor captures k
  | .group none inner, cursor, captures, k => run ignoreCase inner cursor captures k
  | .group (some number) inner, cursor, captures, k =>
    run ignoreCase inner cursor captures fun after captures =>
      k after ((number, cursor.rest.take (after.position - cursor.position)) :: captures)
  | .reference number, cursor, captures, k =>
    match captures.lookup number with
    | some part =>
      match Cursor.over ignoreCase part cursor with
      | some cursor => k cursor captures
      | none => none
    | none => none
  | .loop least most greed inner, cursor, captures, k =>
    let body := run ignoreCase inner
    let bound := least + cursor.rest.length + 2
    match greed with
    | .greedy => greedyLoop body least most k bound 0 none cursor captures
    | .lazy => lazyLoop body least most k bound 0 none cursor captures
    | .possessive =>
      match greedyLoop body least most (fun c g => some (c, g)) bound 0 none cursor captures with
      | some (cursor, captures) => k cursor captures
      | none => none
  | .ahead negated inner, cursor, captures, k =>
    match run ignoreCase inner cursor captures fun c g => some (c, g) with
    | some (_, found) => if negated then none else k cursor found
    | none => if negated then k cursor captures else none
  | .atomic inner, cursor, captures, k =>
    match run ignoreCase inner cursor captures fun c g => some (c, g) with
    | some (cursor, captures) => k cursor captures
    | none => none

/-- A match: where it begins, the place after it, and what its groups matched. -/
structure Match where
  start : Nat
  matched : Text
  finish : Cursor
  captures : Captures

/-- Tries a place; with `advance` an empty match there does not count. -/
def matchAt (pattern : Pattern) (advance : Bool) (cursor : Cursor) : Option Match :=
  let accept : Continuation := fun after captures =>
    if advance && after.position == cursor.position then none else some (after, captures)
  (run pattern.ignoreCase pattern.regex cursor [] accept).map fun (after, captures) =>
    ⟨cursor.position, cursor.rest.take (after.position - cursor.position), after, captures⟩

/-- The first match at or after a place; `advance` only concerns the place itself. -/
def findFrom (pattern : Pattern) (advance : Bool) (previous : Option CodePoint) (position : Nat) :
    Text → Option Match
  | [] => matchAt pattern advance ⟨previous, position, []⟩
  | c :: rest =>
    match matchAt pattern advance ⟨previous, position, c :: rest⟩ with
    | some found => some found
    | none => findFrom pattern false (some c) (position + 1) rest

def isFound (pattern : Pattern) (t : Text) : Bool := (findFrom pattern false none 0 t).isSome

/-- The matches in a text from left to right, at most `bound`. After an empty match the
next one at the same place must not be empty. -/
def matchesFrom (pattern : Pattern) : (bound : Nat) → (advance : Bool) → Cursor → List Match
  | 0, _, _ => []
  | bound + 1, advance, cursor =>
    match findFrom pattern advance cursor.previous cursor.position cursor.rest with
    | none => []
    | some found =>
      found :: matchesFrom pattern bound (found.finish.position == found.start) found.finish

/-- All matches in a text. There are at most two for each place. -/
def allMatches (pattern : Pattern) (t : Text) : List Match :=
  matchesFrom pattern (2 * t.length + 2) false ⟨none, 0, t⟩

/-- The first match in a text, as a list. -/
def firstMatch (pattern : Pattern) (t : Text) : List Match :=
  (findFrom pattern false none 0 t).toList

/-- The text that a group of a match holds; group zero is the match itself. -/
def Match.group (found : Match) (number : Nat) : Text :=
  if number = 0 then found.matched else (found.captures.lookup number).getD []

/-- Replaces matches, given in order, in a text that begins at a position. -/
def replaceMatches (replacement : Match → Text) (position : Nat) (t : Text) :
    List Match → Text
  | [] => t
  | found :: rest =>
    let finish := found.finish.position
    t.take (found.start - position) ++ replacement found ++
      replaceMatches replacement finish (t.drop (finish - position)) rest

end TreeShell.Regex
