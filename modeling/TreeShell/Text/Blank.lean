import TreeShell.Text.Ranges

/-! Blank characters and the words between them. Every reader that speaks of blanks
means this set, except the splitting of command lines, which knows four characters only. -/
namespace TreeShell.Text

def blankRanges : Ranges :=
  [(0x9, 0xd), (0x1c, 0x20), (0x85, 0x85), (0xa0, 0xa0), (0x1680, 0x1680), (0x2000, 0x200a),
    (0x2028, 0x2029), (0x202f, 0x202f), (0x205f, 0x205f), (0x3000, 0x3000)]

/-- A blank character: a space, a tab, an end of line or one of their kin. -/
def isBlank (c : CodePoint) : Bool := blankRanges.covers c

def strip (t : Text) : Text := trimWhile isBlank t

def stripEnd (t : Text) : Text := dropEndWhile isBlank t

def allBlank (t : Text) : Bool := t.all isBlank

def blanks (t : Text) : Nat := t.countP isBlank

/-- Collects words from `rest`; `word` holds the letters of the word at hand, last first. -/
def wordsFrom (word : Text) : Text → List Text
  | [] => if word.isEmpty then [] else [word.reverse]
  | c :: rest =>
    if isBlank c then
      if word.isEmpty then wordsFrom [] rest else word.reverse :: wordsFrom [] rest
    else wordsFrom (c :: word) rest

def words (t : Text) : List Text := wordsFrom [] t

/-- Every run of blanks becomes `sep`. -/
def squeezeBlanks (sep : Text) : (inRun : Bool) → Text → Text
  | _, [] => []
  | inRun, c :: rest =>
    if isBlank c then
      if inRun then squeezeBlanks sep true rest else sep ++ squeezeBlanks sep true rest
    else c :: squeezeBlanks sep false rest

end TreeShell.Text
