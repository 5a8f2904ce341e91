import TreeShell.Proofs.Patch.Locate
import TreeShell.Proofs.Patch.Written

/-! Carriage returns at the ends of lines. A reader of patches takes them for a part of the end
of line, so that the hunks of a difference have lost them; the files have not. So a difference
is read as if no line had ended in one (`parse_rendered_congr`), and applying it leaves the
lines that end in one as they are (`filter_applySplices`). -/
namespace TreeShell.Patch

open Text Diff

section Lines

/-- Whatever the lines hold, a patch is read line by line. -/
theorem patchLines_joinLines_flatMap {lines : List Text} (h : lines ≠ []) :
    patchLines (joinLines lines) = lines.flatMap patchLines := by
  induction lines with
  | nil => exact absurd rfl h
  | cons line lines ih =>
      cases lines with
      | nil =>
          rw [List.flatMap_singleton]
          rfl
      | cons next lines =>
          have hJoin : joinLines (line :: next :: lines) =
              line ++ chr '\n' :: joinLines (next :: lines) := by simp [joinLines, join]
          rw [hJoin, patchLines, splitOn_append_sep, List.map_append, List.flatMap_cons,
            ← ih (List.cons_ne_nil _ _)]
          rfl

theorem patchLines_ne_nil (t : Text) : patchLines t ≠ [] := by
  rw [patchLines, ne_eq, List.map_eq_nil_iff]
  exact splitOn_ne_nil (chr '\n') t

/-- The reader of patches sees no more of lines than what each of them is split into. -/
theorem patchLines_joinLines_congr {lines others : List Text}
    (h : lines.flatMap patchLines = others.flatMap patchLines) :
    patchLines (joinLines lines) = patchLines (joinLines others) := by
  have hNil (lines : List Text) : lines.flatMap patchLines = [] ↔ lines = [] := by
    rw [List.flatMap_eq_nil_iff, List.eq_nil_iff_forall_not_mem]
    exact forall₂_congr fun line _ => iff_of_false (patchLines_ne_nil line) id
  by_cases hLines : lines = []
  · have hOthers : others = [] := (hNil others).mp (h ▸ (hNil lines).mpr hLines)
    rw [hLines, hOthers]
  · have hOthers : others ≠ [] := fun hNone => hLines ((hNil lines).mp (h.trans ((hNil others).mpr hNone)))
    rw [patchLines_joinLines_flatMap hLines, patchLines_joinLines_flatMap hOthers, h]

theorem dropFinal_cons {c d : CodePoint} (h : d ≠ c) (t : Text) :
    dropFinal c (d :: t) = d :: dropFinal c t := by
  cases t with
  | nil => simp [dropFinal, h]
  | cons e t =>
      simp only [dropFinal, List.getLast?_cons_cons, List.dropLast_cons_cons]
      split <;> rfl

/-- A mark in front of a line is read as a part of it. -/
theorem patchLines_cons {c : CodePoint} (hBreak : c ≠ '\n') (hReturn : c ≠ '\r') (t : Text) :
    patchLines (c :: t) = (patchLines t).modifyHead (c :: ·) := by
  obtain ⟨piece, pieces, hPieces⟩ := List.exists_cons_of_ne_nil (splitOn_ne_nil (chr '\n') t)
  rw [patchLines, patchLines, splitOn, if_neg hBreak, hPieces]
  simp [dropFinal_cons hReturn]

/-- Two lists of lines that read alike in a patch. -/
def ReadAlike (a b : List Text) : Prop :=
  ∀ i, patchLines (lineAt a i) = patchLines (lineAt b i)

theorem ReadAlike.cons {a b : List Text} (h : ReadAlike a b) {c : CodePoint} (hBreak : c ≠ '\n')
    (hReturn : c ≠ '\r') (i : Nat) :
    patchLines (c :: lineAt a i) = patchLines (c :: lineAt b i) := by
  rw [patchLines_cons hBreak hReturn, patchLines_cons hBreak hReturn, h i]

theorem ReadAlike.mark {a b : List Text} (h : ReadAlike a b) {c : CodePoint} (hBreak : c ≠ '\n')
    (hReturn : c ≠ '\r') (i : Nat) :
    patchLines (c :: chr ' ' :: lineAt a i) = patchLines (c :: chr ' ' :: lineAt b i) := by
  rw [patchLines_cons hBreak hReturn, patchLines_cons hBreak hReturn,
    h.cons (by decide) (by decide) i]

end Lines

/-- Of a patch only its lines matter. -/
theorem parse_congr {t t' : Text} (h : patchLines t = patchLines t') : parse t = parse t' := by
  rw [parse, parse, h]

section Forms

variable {a a' b b' : List Text} (hA : ReadAlike a a') (hB : ReadAlike b b') (edits : List Edit)
include hA hB

/-- Texts that differ only in what the reader of patches drops have hunks that it reads alike. -/
theorem readAlike_unifiedHunk (hunk : Diff.Hunk) :
    (renderUnifiedHunk a b edits hunk).flatMap patchLines =
      (renderUnifiedHunk a' b' edits hunk).flatMap patchLines := by
  have hEdit : ∀ edit, patchLines (renderUnifiedEdit a b edit) =
      patchLines (renderUnifiedEdit a' b' edit) := by
    intro edit
    cases edit with
    | common i j => exact hA.cons (by decide) (by decide) i
    | delete i blank => exact hA.cons (by decide) (by decide) i
    | add j blank => exact hB.cons (by decide) (by decide) j
  rw [renderUnifiedHunk, renderUnifiedHunk, List.flatMap_cons, List.flatMap_cons, List.flatMap_map,
    List.flatMap_map]
  simp only [hEdit]

/-- A change of lines that read alike is read alike. -/
theorem readAlike_change (range : Diff.Range) :
    (renderChange a b edits range).flatMap patchLines =
      (renderChange a' b' edits range).flatMap patchLines := by
  have hOld (i : Nat) : patchLines ("< " ++ lineAt a i) = patchLines ("< " ++ lineAt a' i) :=
    hA.mark (by decide) (by decide) i
  have hNew (j : Nat) : patchLines ("> " ++ lineAt b j) = patchLines ("> " ++ lineAt b' j) :=
    hB.mark (by decide) (by decide) j
  simp only [renderChange, List.flatMap_append, List.flatMap_map, hOld, hNew]

omit hB in
theorem readAlike_contextOld (window : List Edit) :
    (renderContextOld a window).flatMap patchLines = (renderContextOld a' window).flatMap patchLines := by
  rw [renderContextOld, renderContextOld]
  split
  · rw [List.flatMap_def, List.flatMap_def, List.map_filterMap, List.map_filterMap]
    congr 1
    apply List.filterMap_congr
    rintro ⟨edit, index⟩ _
    cases edit with
    | common i j => exact congrArg some (hA.mark (by decide) (by decide) i)
    | delete i blank =>
        refine congrArg some (hA.mark ?_ ?_ i) <;> split <;> decide
    | add j blank => rfl
  · rfl

omit hA in
theorem readAlike_contextNew (window : List Edit) :
    (renderContextNew b window).flatMap patchLines = (renderContextNew b' window).flatMap patchLines := by
  rw [renderContextNew, renderContextNew]
  split
  · rw [List.flatMap_def, List.flatMap_def, List.map_filterMap, List.map_filterMap]
    congr 1
    apply List.filterMap_congr
    rintro ⟨edit, index⟩ _
    cases edit with
    | common i j => exact congrArg some (hB.mark (by decide) (by decide) j)
    | delete i blank => rfl
    | add j blank =>
        refine congrArg some (hB.mark ?_ ?_ j) <;> split <;> decide
  · rfl

theorem readAlike_contextHunk (hunk : Diff.Hunk) :
    (renderContextHunk a b edits hunk).flatMap patchLines =
      (renderContextHunk a' b' edits hunk).flatMap patchLines := by
  simp only [renderContextHunk, List.flatMap_append, readAlike_contextOld hA, readAlike_contextNew hB]

theorem patchLines_renderNormal :
    patchLines (renderNormal a b edits) = patchLines (renderNormal a' b' edits) := by
  apply patchLines_joinLines_congr
  simp only [List.flatMap_assoc, readAlike_change hA hB edits]

/-- The lines of a unified patch depend on how the texts read only. -/
theorem patchLines_renderUnified (file1 file2 : Text) (context : Int) :
    patchLines (renderUnified a b edits file1 file2 context) =
      patchLines (renderUnified a' b' edits file1 file2 context) := by
  rw [renderUnified, renderUnified]
  split
  · rfl
  · apply patchLines_joinLines_congr
    simp only [List.flatMap_append, List.flatMap_assoc, readAlike_unifiedHunk hA hB edits]

/-- The lines of a context patch depend on how the texts read only. -/
theorem patchLines_renderContext (file1 file2 : Text) (context : Int) :
    patchLines (renderContext a b edits file1 file2 context) =
      patchLines (renderContext a' b' edits file1 file2 context) := by
  rw [renderContext, renderContext]
  split
  · rfl
  · apply patchLines_joinLines_congr
    simp only [List.flatMap_append, List.flatMap_assoc, readAlike_contextHunk hA hB edits]

/-- Lines that read alike give the same patch, in whatever form their difference is written. -/
theorem parse_rendered_congr (form : Format) (file1 file2 : Text) (context : Int) :
    parse (rendered form a b edits file1 file2 context) =
      parse (rendered form a' b' edits file1 file2 context) := by
  apply parse_congr
  cases form with
  | normal => exact patchLines_renderNormal hA hB edits
  | unified => exact patchLines_renderUnified hA hB edits file1 file2 context
  | context => exact patchLines_renderContext hA hB edits file1 file2 context

end Forms

/-- The lines without the carriage returns at their ends. -/
def withoutReturns (lines : List Text) : List Text := lines.map (dropFinal (chr '\r'))

theorem lineAt_withoutReturns (lines : List Text) (i : Nat) :
    lineAt (withoutReturns lines) i = dropFinal (chr '\r') (lineAt lines i) := by
  rw [lineAt, lineAt, List.getD_eq_getElem?_getD, List.getD_eq_getElem?_getD, withoutReturns,
    List.getElem?_map]
  cases lines[i]? <;> rfl

theorem patchLines_of_noBreak {t : Text} (h : chr '\n' ∉ t) : patchLines t = [dropFinal (chr '\r') t] := by
  rw [patchLines, splitOn_of_not_mem h]
  rfl

/-- A line that ends in at most one carriage return. -/
def EndsOnce (t : Text) : Prop := chr '\n' ∉ t ∧ IsLine (dropFinal (chr '\r') t)

/-- Lines that end once read like the same lines without returns. -/
theorem readAlike_withoutReturns {lines : List Text} (h : ∀ t ∈ lines, EndsOnce t) :
    ReadAlike lines (withoutReturns lines) := by
  intro i
  have hLine : EndsOnce (lineAt lines i) := by
    rw [lineAt, List.getD_eq_getElem?_getD]
    cases hGet : lines[i]? with
    | none => exact ⟨by simp, isLine_nil⟩
    | some line => exact h line (List.mem_of_getElem? hGet)
  rw [lineAt_withoutReturns, patchLines_of_noBreak hLine.1, patchLines_of_noBreak hLine.2.noBreak,
    dropFinal_of_ne hLine.2.noReturn]

theorem isLine_withoutReturns {lines : List Text} (h : ∀ t ∈ lines, EndsOnce t) :
    ∀ t ∈ withoutReturns lines, IsLine t := by
  intro t ht
  obtain ⟨line, hLine, rfl⟩ := List.mem_map.mp ht
  exact (h line hLine).2

/-- A script stays one without returns, since equal lines stay equal. -/
theorem isScript_withoutReturns {a b : List Text} {edits : List Edit} (h : IsScript a b edits) :
    IsScript (withoutReturns a) (withoutReturns b) edits where
  olds := by rw [withoutReturns, List.length_map, h.olds]
  news := by rw [withoutReturns, List.length_map, h.news]
  common := by
    intro i j hMem
    rw [withoutReturns, withoutReturns, List.getElem?_map, List.getElem?_map,
      h.common i j hMem]

section Kept

variable {p : Text → Bool}

/-- A replacement leaves lines of a kind alone if neither of its sides has any. -/
theorem filter_replaceAt {lines : List Text} {splice : Splice} {maxOffset place : Int}
    (h : locate? lines splice maxOffset = some place) (hOld : ∀ t ∈ splice.oldLines, p t = false)
    (hNew : ∀ t ∈ splice.newLines, p t = false) :
    (replaceAt lines place splice).filter p = lines.filter p := by
  have hNone {side : List Text} (hSide : ∀ t ∈ side, p t = false) : side.filter p = [] := by
    rw [List.filter_eq_nil_iff]
    intro t ht
    simp [hSide t ht]
  obtain ⟨front, back, hLines, _, hReplaced⟩ := exists_split_of_locate? h
  rw [hReplaced, hLines]
  simp only [List.filter_append, hNone hOld, hNone hNew]

/-- A line that stands in no splice is neither removed nor added by applying them. -/
theorem filter_applySplices {maxOffset : Int} {splices : List (Nat × Splice)} {lines result : List Text}
    {warnings : List Text} (h : applySplices maxOffset splices lines = (warnings, .ok result))
    (hSides : ∀ entry ∈ splices, ∀ t ∈ entry.2.oldLines ++ entry.2.newLines, p t = false) :
    result.filter p = lines.filter p := by
  induction splices generalizing lines warnings with
  | nil =>
      cases h
      rfl
  | cons entry splices ih =>
      have hFirst := hSides _ (List.mem_cons_self ..)
      obtain ⟨place, later, hPlace, hLater⟩ := exists_of_applySplices_cons h
      rw [ih hLater fun entry hEntry => hSides entry (List.mem_cons_of_mem _ hEntry)]
      exact filter_replaceAt hPlace (fun t ht => hFirst t (List.mem_append_left _ ht))
        fun t ht => hFirst t (List.mem_append_right _ ht)

end Kept

/-- The sides of the replacements that a text is read as are lines of a patch. -/
theorem isLine_of_mem_orderedSplices {a b : List Text} {edits : List Edit} {sections : List Section}
    {ranges : List Diff.Range} (hA : ∀ t ∈ a, IsLine t) (hB : ∀ t ∈ b, IsLine t)
    (hSplices : (joinSections sections).hunks.map Hunk.toSplice =
      ranges.map (spliceOf (oldText? a) (newText? a b) edits)) :
    ∀ entry ∈ orderedSplices (joinSections sections).hunks false,
      ∀ t ∈ entry.2.oldLines ++ entry.2.newLines, IsLine t := by
  intro entry hEntry line hLine
  have hMem : entry.2 ∈ (joinSections sections).hunks.map Hunk.toSplice := by
    rw [orderedSplices, List.mem_mergeSort, List.mem_map] at hEntry
    obtain ⟨⟨hunk, index⟩, hHunk, rfl⟩ := hEntry
    exact List.mem_map_of_mem (List.fst_mem_of_mem_zipIdx hHunk)
  rw [hSplices] at hMem
  obtain ⟨range, _, hSplice⟩ := List.mem_map.mp hMem
  rw [← hSplice] at hLine
  rcases List.mem_append.mp hLine with hOld | hNew
  · exact isLine_oldText? hA _ line hOld
  · exact isLine_newText? hA hB _ line hNew

/-- Whether a line ends in a carriage return. -/
def endsInReturn (t : Text) : Bool := t.getLast? == some (chr '\r')

/-- The difference of files can be read, but applying it leaves the lines that end in a
carriage return as they are. -/
theorem exists_filter_diffTexts (form : Format) (context : Int) {a b : List Text} (hDiffer : a ≠ b)
    (hA : ∀ t ∈ a, EndsOnce t) (hB : ∀ t ∈ b, EndsOnce t) {file1 file2 : Text}
    (hFile1 : chr '\n' ∉ file1) (hFile2 : chr '\n' ∉ file2) :
    ∃ sections, parse (diffTexts ⟨.exact, form, context, false⟩ a b file1 file2) = .ok sections ∧
      ∀ maxOffset warnings result,
        apply a (joinSections sections).hunks false maxOffset = (warnings, .ok result) →
          (∀ t ∈ result, chr '\n' ∉ t) ∧ result.filter endsInReturn = a.filter endsInReturn := by
  obtain ⟨edits, hScript, _, hSome, hText⟩ := exists_script_of_diffTexts hDiffer
  have hLinesA := isLine_withoutReturns hA
  have hLinesB := isLine_withoutReturns hB
  obtain ⟨sections, ranges, hParse, _, hSplices⟩ := reads_rendered form hLinesA hLinesB
    (isScript_withoutReturns hScript) context hFile1 hFile2 hSome
  have hSides := isLine_of_mem_orderedSplices hLinesA hLinesB hSplices
  refine ⟨sections, ?_, fun maxOffset warnings result hApply => ⟨fun t ht hBreak => ?_, ?_⟩⟩
  · rw [hText, parse_rendered_congr (readAlike_withoutReturns hA) (readAlike_withoutReturns hB), hParse]
  · have hFilter := @filter_applySplices (fun t => decide (chr '\n' ∈ t)) _ _ _ _ _ hApply
      (fun entry hEntry t ht => by simpa using (hSides entry hEntry t ht).noBreak)
    have hMem : t ∈ result.filter fun t => decide (chr '\n' ∈ t) := by simp [ht, hBreak]
    rw [hFilter, List.mem_filter] at hMem
    exact (hA t hMem.1).1 hBreak
  · exact filter_applySplices hApply
      fun entry hEntry t ht => by simpa [endsInReturn] using (hSides entry hEntry t ht).noReturn

end TreeShell.Patch
