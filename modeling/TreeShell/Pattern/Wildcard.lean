import TreeShell.Line.Word
import TreeShell.Pattern.Glob
import TreeShell.Volume.Walk

/-! Wildcards: words that stand for the paths of a volume. A path matches part by part, so
that no pattern crosses a slash, and a name that begins with a dot only matches a pattern
that does. A pattern that matches nothing stands for itself. -/
namespace TreeShell.Wildcard

/-- Whether a name matches one part of a pattern; `[^` is read as `[!`. -/
def matchPart (pattern name : Text) : Bool :=
  if name.head? == some (chr '.') && pattern.head? != some (chr '.') then false
  else Glob.isMatch (pattern.replaceAfter (chr '[') (chr '^') (chr '!')) name

def matchParts : List Text → List Text → Bool
  | [], [] => true
  | pattern :: patterns, name :: names => matchPart pattern name && matchParts patterns names
  | _, _ => false

def matchPath (pattern path : Text) : Bool :=
  matchParts (pattern.splitOn (chr '/')) (path.splitOn (chr '/'))

/-- The directory that the literal parts of a pattern name, if they name one. -/
def base? (v : Volume) (start : Option Text) (literal : Text) : Option InodeId :=
  let origin := (start.bind v.resolve?).getD v.cwd
  let found := if literal.isEmpty then some origin else v.resolveFrom? origin literal
  found.filter v.isDirectory

/-- What stands before the matching paths. -/
def lead (literal : Text) : Text :=
  if literal.isEmpty || literal == [chr '/'] then literal else literal ++ [chr '/']

/-- The paths that a pattern matches, in increasing order. The leading parts without
wildcards name the directory that is searched. -/
def expandPattern (v : Volume) (start : Option Text) (pattern : Text) : List Text :=
  let parts := (pattern.splitOn (chr '/')).filter (!·.isEmpty)
  let below := parts.dropWhile (!hasGlob ·)
  if below.isEmpty then []
  else
    let named := Text.join [chr '/'] (parts.takeWhile (!hasGlob ·))
    let literal := if Path.isAbsolute pattern then chr '/' :: named else named
    match base? v start literal with
    | none => []
    | some base =>
      let found := (v.walk base).filter fun (path, _) => matchPath (Text.join [chr '/'] below) path
      (found.map fun (path, _) => lead literal ++ path).mergeSort Text.le

def patternFlags : List Text :=
  ["-name", "-iname", "-path", "-ipath", "-regex", "-iregex"]

/-- Expands the words after a command; `keep` says that the word at hand is the value of
an option that takes a pattern. -/
def expandFrom (v : Volume) (start : Option Text) (keep : Bool) : List Word → List Word
  | [] => []
  | w :: rest =>
    if keep then w :: expandFrom v start false rest
    else if patternFlags.contains w.text then w :: expandFrom v start true rest
    else if w.literal || !hasGlob w.text then w :: expandFrom v start false rest
    else match expandPattern v start w.text with
      | [] => w :: expandFrom v start false rest
      | found => found.map Word.plain ++ expandFrom v start false rest

/-- Expands the words after a command; relative patterns are read from `start`, or from
the current directory. -/
def expand (v : Volume) (start : Option Text) (words : List Word) : List Word :=
  expandFrom v start false words

end TreeShell.Wildcard
