import TreeShell.Diff.Hunk

/-! The three written forms of a difference. -/
namespace TreeShell.Diff

/-- The forms that a difference can be written in. -/
inductive Format where
  | normal
  | unified
  | context
  deriving DecidableEq

def lineAt (lines : List Text) (place : Nat) : Text := lines.getD place []

/-- Two line numbers, or one when they are equal. -/
def normalRange (first last : Nat) : Text :=
  if first = last then Text.ofNat first else Text.ofNat first ++ chr ',' :: Text.ofNat last

def placesRange (places : List Nat) : Text :=
  normalRange (places.headD 0 + 1) (places.getLastD 0 + 1)

def renderChange (a b : List Text) (edits : List Edit) (range : Range) : List Text :=
  let group := range.slice edits
  let deletes := (group.filter Edit.isDelete).filterMap Edit.old?
  let adds := (group.filter Edit.isAdd).filterMap Edit.new?
  let (oldBefore, newBefore) := linesBefore edits range.start
  let header :=
    if adds.isEmpty then placesRange deletes ++ chr 'd' :: Text.ofNat newBefore
    else if deletes.isEmpty then Text.ofNat oldBefore ++ chr 'a' :: placesRange adds
    else placesRange deletes ++ chr 'c' :: placesRange adds
  [header] ++ deletes.map (fun i => "< " ++ lineAt a i) ++
    (if deletes.isEmpty || adds.isEmpty then [] else [([chr '-', chr '-', chr '-'] : Text)]) ++
    adds.map fun j => "> " ++ lineAt b j

def renderNormal (a b : List Text) (edits : List Edit) : Text :=
  Text.joinLines ((reportedChanges edits).flatMap (renderChange a b edits))

def renderUnifiedEdit (a b : List Text) : Edit → Text
  | .common i _ => chr ' ' :: lineAt a i
  | .delete i _ => chr '-' :: lineAt a i
  | .add j _ => chr '+' :: lineAt b j

def renderUnifiedHead (hunk : Hunk) : Text :=
  "@@ -" ++ Text.ofNat hunk.oldFirst ++ chr ',' :: Text.ofNat hunk.oldCount ++
    " +" ++ Text.ofNat hunk.newFirst ++ chr ',' :: Text.ofNat hunk.newCount ++ " @@"

def renderUnifiedHunk (a b : List Text) (edits : List Edit) (hunk : Hunk) : List Text :=
  renderUnifiedHead hunk :: (hunk.range.slice edits).map (renderUnifiedEdit a b)

def renderUnified (a b : List Text) (edits : List Edit) (file1 file2 : Text) (context : Int) :
    Text :=
  match hunks edits context with
  | [] => []
  | found => Text.joinLines (["--- " ++ file1, "+++ " ++ file2] ++
      found.flatMap (renderUnifiedHunk a b edits))

/-- The line numbers of one side of a hunk in the context form. -/
def contextRange (first count : Nat) : Text :=
  if count ≤ 1 then Text.ofNat first
  else Text.ofNat first ++ chr ',' :: Text.ofNat (first + count - 1)

/-- Whether an edit of a window stands in a change that both deletes and adds. -/
def isReplacement (window : List Edit) (index : Nat) : Bool :=
  (changes window).any fun range =>
    range.start ≤ index && index < range.stop &&
      (range.slice window).any Edit.isDelete && (range.slice window).any Edit.isAdd

/-- The old side of a hunk in the context form; it is left out when nothing is deleted. -/
def renderContextOld (a : List Text) (window : List Edit) : List Text :=
  if window.any Edit.isDelete then
    window.zipIdx.filterMap fun (edit, index) => match edit with
      | .common i _ => some ("  " ++ lineAt a i)
      | .delete i _ => some ((if isReplacement window index then chr '!' else chr '-') :: chr ' ' :: lineAt a i)
      | .add .. => none
  else []

/-- The new side of a hunk in the context form; it is left out when nothing is added. -/
def renderContextNew (b : List Text) (window : List Edit) : List Text :=
  if window.any Edit.isAdd then
    window.zipIdx.filterMap fun (edit, index) => match edit with
      | .common _ j => some ("  " ++ lineAt b j)
      | .add j _ => some ((if isReplacement window index then chr '!' else chr '+') :: chr ' ' :: lineAt b j)
      | .delete .. => none
  else []

def renderContextHunk (a b : List Text) (edits : List Edit) (hunk : Hunk) : List Text :=
  let window := hunk.range.slice edits
  [List.replicate 15 (chr '*'), "*** " ++ contextRange hunk.oldFirst hunk.oldCount ++ " ****"] ++
    renderContextOld a window ++
    ["--- " ++ contextRange hunk.newFirst hunk.newCount ++ " ----"] ++
    renderContextNew b window

def renderContext (a b : List Text) (edits : List Edit) (file1 file2 : Text) (context : Int) :
    Text :=
  match hunks edits context with
  | [] => []
  | found => Text.joinLines (["*** " ++ file1, "--- " ++ file2] ++
      found.flatMap (renderContextHunk a b edits))

/-- How two files are compared and how the difference is written. -/
structure Options where
  comparison : Comparison
  format : Format
  context : Int
  brief : Bool

def defaultContext : Int := 3

/-- The difference of two files in words; nothing when they compare equal. -/
def diffTexts (options : Options) (a b : List Text) (file1 file2 : Text) : Text :=
  if options.comparison.compared a = options.comparison.compared b then []
  else if options.brief then "Files " ++ file1 ++ " and " ++ file2 ++ " differ"
  else
    let edits := editScript options.comparison a b
    match options.format with
    | .normal => renderNormal a b edits
    | .unified => renderUnified a b edits file1 file2 options.context
    | .context => renderContext a b edits file1 file2 options.context

end TreeShell.Diff
