import TreeShell.Proofs.Patch.Reader

/-! The unified form, written and read back. A hunk is read by the counts in its head, so
that lines of the files may look like anything, also like heads and names. The main
statement is `unified_roundTrip`: the written difference of two lists, read as a patch,
turns each list into the other, with every hunk at the place that its head declares. -/
namespace TreeShell.Patch

open Text Diff

/-- The head of a hunk is read as it was written. -/
theorem unifiedHead?_renderUnifiedHead (hunk : Diff.Hunk) :
    unifiedHead? (renderUnifiedHead hunk) =
      some (hunk.oldFirst, hunk.oldCount, hunk.newFirst, hunk.newCount) := by
  have hBlank (t : Text) : ∀ c ∈ (chr ' ' :: t).head?, isDecimalDigit c = false := by
    rintro c ⟨⟩
    decide
  have hNew := range?_pair hunk.newFirst hunk.newCount (hBlank [chr '@', chr '@'])
  have hOld := range?_pair hunk.oldFirst hunk.oldCount (hBlank
    (chr '+' :: (ofNat hunk.newFirst ++ chr ',' :: (ofNat hunk.newCount ++ [chr ' ', chr '@', chr '@']))))
  unfold renderUnifiedHead
  simp [unifiedHead?, dropStart?, hOld, hNew]

/-- The line of a hunk that an edit is read as. -/
def hunkLine (a b : List Text) : Edit → HunkLine
  | .common i _ => ⟨.context, lineAt a i⟩
  | .delete i _ => ⟨.delete, lineAt a i⟩
  | .add j _ => ⟨.add, lineAt b j⟩

/-- The body of a hunk is read as long as its head says, whatever stands behind it. -/
theorem unifiedBody_map (a b : List Text) (total : Nat) (window : List Edit) (rest : List Text) :
    unifiedBody total (oldCount window) (newCount window)
      (window.map (renderUnifiedEdit a b) ++ rest) = .ok (window.map (hunkLine a b), rest) := by
  induction window with
  | nil => cases rest <;> rfl
  | cons edit window ih =>
      cases edit with
      | common i j =>
          change unifiedBody total (oldCount window + 1) (newCount window + 1)
            ((chr ' ' :: lineAt a i) :: (window.map (renderUnifiedEdit a b) ++ rest)) = _
          simp [unifiedBody, isRemark, ih, hunkLine]
      | delete i blank =>
          change unifiedBody total (oldCount window + 1) (newCount window)
            ((chr '-' :: lineAt a i) :: (window.map (renderUnifiedEdit a b) ++ rest)) = _
          simp [unifiedBody, isRemark, ih, hunkLine]
      | add j blank =>
          change unifiedBody total (oldCount window) (newCount window + 1)
            ((chr '+' :: lineAt b j) :: (window.map (renderUnifiedEdit a b) ++ rest)) = _
          simp [unifiedBody, isRemark, ih, hunkLine]

/-- The hunk that a range of edits is read as. -/
def unifiedOf (a b : List Text) (edits : List Edit) (range : Diff.Range) : Hunk :=
  let head := Diff.Hunk.covering edits range
  .unified head.oldFirst head.oldCount head.newFirst head.newCount
    ((range.slice edits).map (hunkLine a b))

/-- What a hunk keeps when added lines are left out is the old text of its window. -/
theorem textsWithout_add (a b : List Text) (window : List Edit) :
    textsWithout .add (window.map (hunkLine a b)) = window.filterMap (oldText? a) := by
  induction window with
  | nil => rfl
  | cons edit window ih =>
      cases edit with
      | common i j => exact congrArg (lineAt a i :: ·) ih
      | delete i blank => exact congrArg (lineAt a i :: ·) ih
      | add j blank => exact ih

/-- What a hunk keeps when deleted lines are left out is the new text of its window. -/
theorem textsWithout_delete (a b : List Text) (window : List Edit) :
    textsWithout .delete (window.map (hunkLine a b)) = window.filterMap (newText? a b) := by
  induction window with
  | nil => rfl
  | cons edit window ih =>
      cases edit with
      | common i j => exact congrArg (lineAt a i :: ·) ih
      | delete i blank => exact ih
      | add j blank => exact congrArg (lineAt b j :: ·) ih

/-- A hunk stands for the replacement of its range. -/
theorem toSplice_unifiedOf {m n : Nat} {edits : List Edit} (h : Covers m n edits)
    (a b : List Text) (range : Diff.Range) :
    (unifiedOf a b edits range).toSplice = spliceOf (oldText? a) (newText? a b) edits range := by
  simp only [unifiedOf, Hunk.toSplice, Splice.ofLines, textsWithout_add, textsWithout_delete,
    h.covering_eq, spliceOf, ← length_filterMap_oldText? a, ← length_filterMap_newText? a b,
    indexOf_first]

theorem isRemark_renderUnifiedHead (hunk : Diff.Hunk) :
    isRemark (renderUnifiedHead hunk) = false := by
  unfold renderUnifiedHead
  simp [isRemark]

/-- A rendered hunk is read as the hunk it was rendered from, up to a line that is not a remark. -/
theorem readItem_hunk (a b : List Text) (edits : List Edit) (range : Diff.Range) (total : Nat)
    {rest : List Text} (hRest : ∀ line ∈ rest.head?, isRemark line = false) :
    readItem total (renderUnifiedHead (Diff.Hunk.covering edits range))
      ((range.slice edits).map (renderUnifiedEdit a b) ++ rest) =
        .ok (.hunk (unifiedOf a b edits range), rest) := by
  have hBody := unifiedBody_map a b total (range.slice edits) rest
  have hDrop : rest.dropWhile isRemark = rest := by
    cases rest with
    | nil => rfl
    | cons line rest => simp [hRest line rfl]
  rw [readItem_of_unifiedHead total (unifiedHead?_renderUnifiedHead _)]
  change (readUnified total (_, oldCount (range.slice edits), _, newCount (range.slice edits)) _).map _ = _
  simp only [readUnified, hBody]
  change Except.ok (Item.hunk (unifiedOf a b edits range), rest.dropWhile isRemark) = _
  rw [hDrop]

/-- The lines of hunks are read as these hunks, one after the other. -/
theorem sectionsFrom_hunks (a b : List Text) (edits : List Edit) (total : Nat)
    {rest : List Text} (hRest : ∀ line ∈ rest.head?, isRemark line = false)
    (ranges : List Diff.Range) (current : Section) {bound : Nat}
    (hBound : ranges.length + rest.length ≤ bound) :
    ∃ left, rest.length ≤ left ∧ sectionsFrom total bound current
      ((ranges.map (Diff.Hunk.covering edits)).flatMap (renderUnifiedHunk a b edits) ++ rest) =
        sectionsFrom total left
          { current with hunks := current.hunks ++ ranges.map (unifiedOf a b edits) } rest := by
  rw [List.flatMap_map]
  refine sectionsFrom_written ?_ hRest current hBound
  intro range _
  exact ⟨_, _, rfl, isRemark_renderUnifiedHead _,
    fun later hLater => readItem_hunk a b edits range total hLater⟩

/-- The two lines of names before the hunks are read as the names of a section. -/
theorem readItem_names (total : Nat) (file1 file2 : Text) (rest : List Text) :
    readItem total ("--- " ++ file1) (("+++ " ++ file2) :: rest) =
      .ok (.names (fileName ("--- " ++ file1)) (fileName ("+++ " ++ file2)), rest) := by
  simp [readItem, unifiedHead?, dropStart?, isContextSeparator, List.replicate]

/-- An edit of lines is written on one line. -/
theorem isLine_renderUnifiedEdit {a b : List Text} (hA : ∀ t ∈ a, IsLine t)
    (hB : ∀ t ∈ b, IsLine t) (edit : Edit) : IsLine (renderUnifiedEdit a b edit) := by
  cases edit with
  | common i j => exact (isLine_lineAt hA i).cons (by decide) (by decide)
  | delete i blank => exact (isLine_lineAt hA i).cons (by decide) (by decide)
  | add j blank => exact (isLine_lineAt hB j).cons (by decide) (by decide)

theorem isLine_renderUnifiedHead (hunk : Diff.Hunk) : IsLine (renderUnifiedHead hunk) := by
  have hDigits := not_mem_ofNat (show (chr '\n').isDigit = false by decide)
  unfold renderUnifiedHead
  exact ⟨by simp [hDigits], by simp [List.getLast?_cons, List.getLast?_append]⟩

theorem isLine_renderUnifiedHunk {a b : List Text} (hA : ∀ t ∈ a, IsLine t)
    (hB : ∀ t ∈ b, IsLine t) (edits : List Edit) (hunk : Diff.Hunk) :
    ∀ t ∈ renderUnifiedHunk a b edits hunk, IsLine t := by
  intro t ht
  rcases List.mem_cons.mp ht with rfl | ht
  · exact isLine_renderUnifiedHead hunk
  · obtain ⟨edit, _, rfl⟩ := List.mem_map.mp ht
    exact isLine_renderUnifiedEdit hA hB edit

/-- Every range has a line of its own at least, so the reader has enough lines to go through. -/
theorem length_le_renderUnified (a b : List Text) (edits : List Edit) (ranges : List Diff.Range) :
    ranges.length ≤
      ((ranges.map (Diff.Hunk.covering edits)).flatMap (renderUnifiedHunk a b edits)).length := by
  rw [List.flatMap_map]
  apply length_le_flatMap
  intro range _
  exact List.cons_ne_nil _ _

theorem dropFinal_append {mark file : Text} (h : mark.getLast? = some (chr ' ')) :
    ∃ name, dropFinal (chr '\r') (mark ++ file) = mark ++ name := by
  by_cases hReturn : (mark ++ file).getLast? = some (chr '\r')
  · have hFile : file ≠ [] := by
      rintro rfl
      rw [List.append_nil, h] at hReturn
      cases hReturn
    exact ⟨file.dropLast, by rw [dropFinal, if_pos hReturn, List.dropLast_append_of_ne_nil hFile]⟩
  · exact ⟨file, dropFinal_of_ne hReturn⟩

/-- Names of files may lose a carriage return, but the lines below them are found again. -/
theorem patchLines_named {mark1 mark2 : Text} (hMark1 : mark1.getLast? = some (chr ' ') ∧ chr '\n' ∉ mark1)
    (hMark2 : mark2.getLast? = some (chr ' ') ∧ chr '\n' ∉ mark2) {file1 file2 : Text} (hFile1 : chr '\n' ∉ file1)
    (hFile2 : chr '\n' ∉ file2) {body : List Text} (hBody : ∀ t ∈ body, IsLine t) :
    ∃ name1 name2, patchLines (joinLines ((mark1 ++ file1) :: (mark2 ++ file2) :: body)) =
      (mark1 ++ name1) :: (mark2 ++ name2) :: body := by
  obtain ⟨name1, hName1⟩ := @dropFinal_append mark1 file1 hMark1.1
  obtain ⟨name2, hName2⟩ := @dropFinal_append mark2 file2 hMark2.1
  have hKept : body.map (dropFinal (chr '\r')) = body := by
    rw [List.map_congr_left fun t ht => dropFinal_of_ne (hBody t ht).noReturn, List.map_id']
  have hBreaks : ∀ t ∈ (mark1 ++ file1) :: (mark2 ++ file2) :: body, chr '\n' ∉ t := by
    intro t ht
    rcases List.mem_cons.mp ht with rfl | ht
    · simpa using ⟨hMark1.2, hFile1⟩
    · rcases List.mem_cons.mp ht with rfl | ht
      · simpa using ⟨hMark2.2, hFile2⟩
      · exact (hBody t ht).noBreak
  refine ⟨name1, name2, ?_⟩
  rw [patchLines_joinLines hBreaks, List.map_cons, List.map_cons, hName1, hName2, hKept]

/-- The written form of hunks is read as one section with these hunks. -/
theorem parse_unified {a b : List Text} (hA : ∀ t ∈ a, IsLine t) (hB : ∀ t ∈ b, IsLine t)
    (edits : List Edit) {ranges : List Diff.Range} (hRanges : ranges ≠ []) {file1 file2 : Text}
    (hFile1 : chr '\n' ∉ file1) (hFile2 : chr '\n' ∉ file2) :
    ∃ source target, parse (joinLines (("--- " ++ file1) :: ("+++ " ++ file2) ::
      (ranges.map (Diff.Hunk.covering edits)).flatMap (renderUnifiedHunk a b edits))) =
        .ok [⟨some source, some target, ranges.map (unifiedOf a b edits)⟩] := by
  let body := (ranges.map (Diff.Hunk.covering edits)).flatMap (renderUnifiedHunk a b edits)
  have hBody : ∀ t ∈ body, IsLine t := by
    intro t ht
    obtain ⟨hunk, _, hMem⟩ := List.mem_flatMap.mp ht
    exact isLine_renderUnifiedHunk hA hB edits hunk t hMem
  obtain ⟨name1, name2, hLines⟩ := @patchLines_named "--- " "+++ " (by decide) (by decide)
    file1 file2 hFile1 hFile2 body hBody
  have hLength : ranges.length ≤ body.length := length_le_renderUnified a b edits ranges
  let total := body.length + 2
  obtain ⟨left, _, hSections⟩ := sectionsFrom_hunks a b edits total
    (show ∀ line ∈ ([] : List Text).head?, isRemark line = false by rintro line ⟨⟩) ranges
    ⟨some (fileName ("--- " ++ name1)), some (fileName ("+++ " ++ name2)), []⟩
    (show ranges.length + ([] : List Text).length ≤ body.length + 1 from Nat.le_succ_of_le hLength)
  refine ⟨fileName ("--- " ++ name1), fileName ("+++ " ++ name2), ?_⟩
  have hRead : sectionsFrom total total ⟨none, none, []⟩
      (("--- " ++ name1) :: ("+++ " ++ name2) :: body) = .ok [⟨some (fileName ("--- " ++ name1)),
        some (fileName ("+++ " ++ name2)), ranges.map (unifiedOf a b edits)⟩] := by
    rw [List.append_nil] at hSections
    rw [sectionsFrom_of_names (readItem_names total name1 name2 body), hSections]
    cases left <;> simp [sectionsFrom, Section.kept, hRanges, Except.map]
  rw [parse, hLines]
  change (sectionsFrom total total _ _ >>= _) = _
  rw [hRead]
  rfl

/-- The written difference of two lists, read as a patch, turns each list into the other. -/
theorem unified_roundTrip {a b : List Text} (hDiffer : a ≠ b) (hA : ∀ t ∈ a, IsLine t)
    (hB : ∀ t ∈ b, IsLine t) (context : Int) {file1 file2 : Text} (hFile1 : chr '\n' ∉ file1)
    (hFile2 : chr '\n' ∉ file2) :
    ∃ sections, parse (renderUnified a b (script a b) file1 file2 context) = .ok sections ∧
      TurnsBothWays (joinSections sections).hunks a b := by
  have hScript := isScript_script a b
  obtain ⟨ranges, hHunks, hSpaced, hHold⟩ := hunks_eq_map_covering (isBlank_script a b) context
  have hRanges : ranges ≠ [] := by
    rintro rfl
    refine hDiffer (hScript.eq_of_isIdentity (List.all_eq_true.mpr ?_))
    intro edit hMem
    by_contra hChange
    obtain ⟨k, hk⟩ := List.mem_iff_getElem?.mp hMem
    obtain ⟨range, hRange, _⟩ := hHold k edit hk (by simpa using hChange)
    simp at hRange
  obtain ⟨source, target, hParse⟩ :=
    parse_unified hA hB (script a b) hRanges hFile1 hFile2
  refine ⟨[⟨some source, some target, ranges.map (unifiedOf a b (script a b))⟩], ?_, ?_⟩
  · rw [renderUnified, hHunks]
    cases ranges with
    | nil => exact absurd rfl hRanges
    | cons range ranges => exact hParse
  · intro maxOffset
    have hForward : MadeInPlace maxOffset
        (orderedSplices (ranges.map (unifiedOf a b (script a b))) false) a b := by
      refine (hScript.rewrites hSpaced hHold).madeInPlace_orderedSplices ?_ maxOffset
      simp [toSplice_unifiedOf hScript.toCovers]
    have hBackward : MadeInPlace maxOffset
        (orderedSplices (ranges.map (unifiedOf a b (script a b))) true) b a := by
      refine (hScript.rewrites_reverse hSpaced hHold).madeInPlace_orderedSplices ?_ maxOffset
      simp [toSplice_unifiedOf hScript.toCovers]
    have hJoin : (joinSections [⟨some source, some target,
        ranges.map (unifiedOf a b (script a b))⟩]).hunks =
          ranges.map (unifiedOf a b (script a b)) := by simp [joinSections]
    rw [hJoin]
    exact ⟨hForward.applySplices_eq, hBackward.applySplices_eq, hForward, hBackward⟩

/-- Lines that look like names, heads and remarks, and no line of context. -/
theorem unified_roundTrip_marks :
    ∃ sections, parse (renderUnified ["--- x", "@@ -1 +1 @@", ""] ["@@ -1 +1 @@", "\\ +++ y", ""]
      (script ["--- x", "@@ -1 +1 @@", ""] ["@@ -1 +1 @@", "\\ +++ y", ""]) "old" "new" (-1)) =
        .ok sections ∧
      TurnsBothWays (joinSections sections).hunks
        ["--- x", "@@ -1 +1 @@", ""] ["@@ -1 +1 @@", "\\ +++ y", ""] :=
  unified_roundTrip (by decide) (by decide) (by decide) (-1) (by decide) (by decide)

end TreeShell.Patch
