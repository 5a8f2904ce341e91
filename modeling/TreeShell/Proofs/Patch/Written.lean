import TreeShell.Proofs.Diff.Comparison
import TreeShell.Proofs.Patch.Context
import TreeShell.Proofs.Patch.Normal
import TreeShell.Proofs.Patch.Unified

/-! Differences that ignore something, read back as patches. The hunks stand for the ranges
that are shown; ignored changes outside of them are not made, but under the comparison that
ignored them nobody can tell. The main statement is `ignoring_roundTrip`. -/
namespace TreeShell.Patch

open Text Diff

/-- Read as a patch, a text has the replacements of ranges that show the script. -/
def Reads (t : Text) (a b : List Text) (edits : List Edit) : Prop :=
  ∃ sections ranges, parse t = .ok sections ∧ Shown edits ranges ∧
    (joinSections sections).hunks.map Hunk.toSplice =
      ranges.map (spliceOf (oldText? a) (newText? a b) edits)

section Forms

variable {a b : List Text} {edits : List Edit} {file1 file2 : Text}

/-- One section with a hunk for each range is a reading if the hunks stand for the ranges. -/
theorem reads_of_parse {t : Text} {source target : Option Text} {ranges : List Diff.Range}
    {written : Diff.Range → Hunk} (hParse : parse t = .ok [⟨source, target, ranges.map written⟩])
    (hShown : Shown edits ranges) (hSplice : ∀ range ∈ ranges,
      (written range).toSplice = spliceOf (oldText? a) (newText? a b) edits range) :
    Reads t a b edits := by
  refine ⟨_, ranges, hParse, hShown, ?_⟩
  rw [joinSections, List.flatMap_singleton, List.map_map]
  exact List.map_congr_left hSplice

/-- The lines of a normal diff are read back as the changes of its script. -/
theorem reads_normal (hA : ∀ t ∈ a, IsLine t) (hB : ∀ t ∈ b, IsLine t)
    (hCovers : Covers a.length b.length edits) (hSome : reportedChanges edits ≠ []) :
    Reads (renderNormal a b edits) a b edits := by
  have hShown := shown_reportedChanges edits
  have hChanges : ∀ range ∈ reportedChanges edits,
      OnlyChanges edits range ∧ range.slice edits ≠ [] := by
    intro range hRange
    obtain ⟨edit, hEdit, _⟩ := hShown.exists_change hRange
    exact ⟨onlyChanges_changes range (mem_changes_of_reported hRange), List.ne_nil_of_mem hEdit⟩
  exact reads_of_parse (parse_normal hA hB hCovers hSome hChanges) hShown
    fun range _ => toSplice_normalOf a b edits range

/-- The hunks of a script that reports a change cover ranges that show it. -/
theorem exists_shown (context : Int) (hSome : reportedChanges edits ≠ []) :
    ∃ range rest, hunks edits context = (range :: rest).map (Diff.Hunk.covering edits) ∧
      Shown edits (range :: rest) := by
  obtain ⟨ranges, hHunks, hShown⟩ := hunks_eq_map_shown edits context
  obtain ⟨change, hChange⟩ := List.exists_mem_of_ne_nil _ hSome
  obtain ⟨range, hRange, _⟩ := hShown.whole change hChange
  obtain ⟨first, rest, rfl⟩ := List.exists_cons_of_ne_nil (List.ne_nil_of_mem hRange)
  exact ⟨first, rest, hHunks, hShown⟩

/-- The lines of a unified diff are read back as the hunks of its script. -/
theorem reads_unified (hA : ∀ t ∈ a, IsLine t) (hB : ∀ t ∈ b, IsLine t)
    (hCovers : Covers a.length b.length edits) (context : Int) (hFile1 : chr '\n' ∉ file1)
    (hFile2 : chr '\n' ∉ file2) (hSome : reportedChanges edits ≠ []) :
    Reads (renderUnified a b edits file1 file2 context) a b edits := by
  obtain ⟨range, rest, hHunks, hShown⟩ := exists_shown context hSome
  obtain ⟨source, target, hParse⟩ :=
    parse_unified hA hB edits (List.cons_ne_nil range rest) hFile1 hFile2
  rw [renderUnified, hHunks]
  exact reads_of_parse hParse hShown fun range _ => toSplice_unifiedOf hCovers a b range

/-- The lines of a context diff are read back as the hunks of its script. -/
theorem reads_context (hA : ∀ t ∈ a, IsLine t) (hB : ∀ t ∈ b, IsLine t)
    (hScript : IsScript a b edits) (context : Int) (hFile1 : chr '\n' ∉ file1)
    (hFile2 : chr '\n' ∉ file2) (hSome : reportedChanges edits ≠ []) :
    Reads (renderContext a b edits file1 file2 context) a b edits := by
  obtain ⟨range, rest, hHunks, hShown⟩ := exists_shown context hSome
  obtain ⟨source, target, hParse⟩ :=
    parse_context hA hB edits (List.cons_ne_nil range rest) hFile1 hFile2
  rw [renderContext, hHunks]
  exact reads_of_parse hParse hShown fun range hRange =>
    toSplice_contextOf hScript (hShown.exists_change hRange)

/-- The hunks are applied where they are declared, and change nothing but the ranges. -/
theorem Reads.exists_patched {t : Text} (h : Reads t a b edits)
    (hCovers : Covers a.length b.length edits) :
    ∃ sections ranges, parse t = .ok sections ∧ Shown edits ranges ∧ ∀ maxOffset,
      MadeInPlace maxOffset (orderedSplices (joinSections sections).hunks false) a
        (patchedFrom (oldText? a) (newText? a b) edits 0 ranges) := by
  obtain ⟨sections, ranges, hParse, hShown, hSplices⟩ := h
  refine ⟨sections, ranges, hParse, hShown, fun maxOffset => ?_⟩
  have hRewrites := rewrites_patchedFrom (sides_texts a b) hShown.spaced (Nat.le_refl 0) hShown.apart
  rw [List.drop_zero, hCovers.filterMap_oldText?, ← hSplices] at hRewrites
  exact hRewrites.madeInPlace_orderedSplices rfl maxOffset

/-- Where nothing was ignored, the hunks make the new lines. -/
theorem Reads.apply_eq {t : Text} (h : Reads t a b edits) (hScript : IsScript a b edits)
    (hPlain : ∀ edit ∈ edits, edit.isBlank = false) :
    ∃ sections, parse t = .ok sections ∧ ∀ maxOffset,
      apply a (joinSections sections).hunks false maxOffset = ([], .ok b) := by
  obtain ⟨sections, ranges, hParse, hShown, hSplices⟩ := h
  refine ⟨sections, hParse, fun maxOffset => ?_⟩
  have hRewrites := hScript.rewrites hShown.spaced (hShown.holdChanges hPlain)
  rw [← hSplices] at hRewrites
  exact (hRewrites.madeInPlace_orderedSplices rfl maxOffset).applySplices_eq

/-- A script in one of the three forms. -/
def rendered (form : Format) (a b : List Text) (edits : List Edit) (file1 file2 : Text)
    (context : Int) : Text :=
  match form with
  | .normal => renderNormal a b edits
  | .unified => renderUnified a b edits file1 file2 context
  | .context => renderContext a b edits file1 file2 context

/-- In every form a diff is read back: it has the splices of its script. -/
theorem reads_rendered (form : Format) (hA : ∀ t ∈ a, IsLine t) (hB : ∀ t ∈ b, IsLine t)
    (hScript : IsScript a b edits) (context : Int) (hFile1 : chr '\n' ∉ file1) (hFile2 : chr '\n' ∉ file2)
    (hSome : reportedChanges edits ≠ []) :
    Reads (rendered form a b edits file1 file2 context) a b edits := by
  cases form with
  | normal => exact reads_normal hA hB hScript.toCovers hSome
  | unified => exact reads_unified hA hB hScript.toCovers context hFile1 hFile2 hSome
  | context => exact reads_context hA hB hScript context hFile1 hFile2 hSome

/-- Where nothing is ignored, a difference is the script between the lines themselves. -/
theorem exists_script_of_diffTexts (hDiffer : a ≠ b) : ∃ edits, IsScript a b edits ∧
    (∀ edit ∈ edits, edit.isBlank = false) ∧ reportedChanges edits ≠ [] ∧
    ∀ form context file1 file2, diffTexts ⟨.exact, form, context, false⟩ a b file1 file2 =
      rendered form a b edits file1 file2 context := by
  have hCompares := compares_editScript .exact a b
  have hScript := hCompares.isScript
  have hPlain := hCompares.isBlank_eq_false
  have hCompared : Comparison.exact.compared a ≠ Comparison.exact.compared b := by
    rw [Comparison.compared_eq, Comparison.compared_eq, funext Comparison.seen_exact,
      List.filterMap_some, List.filterMap_some]
    exact hDiffer
  refine ⟨editScript .exact a b, hScript, hPlain,
    ranges_ne_nil hDiffer hScript ((shown_reportedChanges _).holdChanges hPlain), ?_⟩
  intro form context file1 file2
  rw [diffTexts, if_neg hCompared, if_neg Bool.false_ne_true]
  rfl

/-- A difference in full, in whatever form, is read as hunks that make the new lines. -/
theorem exists_apply_diffTexts (form : Format) (context : Int) (hDiffer : a ≠ b)
    (hA : ∀ t ∈ a, IsLine t) (hB : ∀ t ∈ b, IsLine t) (hFile1 : chr '\n' ∉ file1)
    (hFile2 : chr '\n' ∉ file2) :
    ∃ sections, parse (diffTexts ⟨.exact, form, context, false⟩ a b file1 file2) = .ok sections ∧
      ∀ maxOffset, apply a (joinSections sections).hunks false maxOffset = ([], .ok b) := by
  obtain ⟨edits, hScript, hPlain, hSome, hText⟩ := exists_script_of_diffTexts hDiffer
  rw [hText]
  exact (reads_rendered form hA hB hScript context hFile1 hFile2 hSome).apply_eq hScript hPlain

end Forms

section Ignoring

variable {options : Comparison} {a b : List Text} {edits : List Edit} {ranges : List Diff.Range}

/-- An edit that is not shown is no change, or one of a line that was ignored. -/
theorem isCommon_or_isBlank_of_outside (hShown : Shown edits ranges) {k : Nat} {edit : Edit}
    (hEdit : edits[k]? = some edit) (hOutside : ∀ range ∈ ranges, k < range.start ∨ range.stop ≤ k) :
    edit.isCommon = true ∨ edit.isBlank = true := by
  rw [Classical.or_iff_not_imp_left]
  intro hChange
  obtain ⟨change, hMem, hLow, hHigh⟩ := holdChanges_changes edits k edit hEdit (by simpa using hChange)
  have hUnreported : change ∉ reportedChanges edits := by
    intro hReported
    obtain ⟨range, hRange, hStart, hStop⟩ := hShown.whole change hReported
    rcases hOutside range hRange with hBefore | hBehind <;> omega
  have hBlank : (change.slice edits).all Edit.isBlank = true := by
    simpa [reportedChanges, hMem] using hUnreported
  refine List.all_eq_true.mp hBlank edit (List.mem_iff_getElem?.mpr ⟨k - change.start, ?_⟩)
  rw [Range.slice, List.getElem?_take, if_pos (by omega), List.getElem?_drop,
    Nat.add_sub_cancel' hLow, hEdit]

/-- Where nothing is shown, the comparison sees the same on both sides. -/
theorem seen_eq_of_outside (h : Compares options a b edits) {edit : Edit} (hMem : edit ∈ edits)
    (hEdit : edit.isCommon = true ∨ edit.isBlank = true) :
    (oldText? a edit).bind options.seen = (newText? a b edit).bind options.seen := by
  cases edit with
  | common i j => rfl
  | delete i blank =>
      have hBlank : blank = true := by simpa [Edit.isCommon, Edit.isBlank] using hEdit
      have hMark := h.delete i blank hMem
      rw [hBlank, eq_comm, Bool.not_eq_true'] at hMark
      exact options.seen_eq_none_iff.mpr hMark
  | add j blank =>
      have hBlank : blank = true := by simpa [Edit.isCommon, Edit.isBlank] using hEdit
      have hMark := h.add j blank hMem
      rw [hBlank, eq_comm, Bool.not_eq_true'] at hMark
      exact (options.seen_eq_none_iff.mpr hMark).symm

/-- With every change made, the comparison sees the new lines. -/
theorem compared_newTexts (h : Compares options a b edits) :
    (edits.filterMap (newText? a b)).filterMap options.seen = options.compared b := by
  have hNew : (edits.filterMap Edit.new?).map (lineAt b) = b := by rw [h.news, map_lineAt_range]
  conv_rhs => rw [options.compared_eq, ← hNew, List.map_filterMap, List.filterMap_filterMap]
  rw [List.filterMap_filterMap]
  apply List.filterMap_congr
  intro edit hMem
  cases edit with
  | common i j => exact h.common i j hMem
  | delete i blank => rfl
  | add j blank => rfl

/-- Replacing what is shown gives lines that compare equal to the new ones. -/
theorem compared_patched (h : Compares options a b edits) (hShown : Shown edits ranges) :
    options.compared (patchedFrom (oldText? a) (newText? a b) edits 0 ranges) =
      options.compared b := by
  rw [← compared_newTexts h, options.compared_eq, filterMap_patchedFrom hShown.spaced (Nat.le_refl 0),
    List.drop_zero]
  intro k edit _ hEdit hOutside
  exact seen_eq_of_outside h (List.mem_of_getElem? hEdit)
    (isCommon_or_isBlank_of_outside hShown hEdit hOutside)

end Ignoring

/-- A difference that ignores something, in the normal or the unified form, can be read as a
patch. Its hunks fit where they are declared, and the lines that they make cannot be told
from the new ones by the same comparison. -/
theorem ignoring_roundTrip {options : Options} (hBrief : options.brief = false)
    (hFormat : options.format = .normal ∨ options.format = .unified) {a b : List Text}
    (hA : ∀ t ∈ a, IsLine t) (hB : ∀ t ∈ b, IsLine t) {file1 file2 : Text} (hFile1 : chr '\n' ∉ file1)
    (hFile2 : chr '\n' ∉ file2) (hSome : diffTexts options a b file1 file2 ≠ []) :
    ∃ sections c, parse (diffTexts options a b file1 file2) = .ok sections ∧
      (∀ maxOffset, apply a (joinSections sections).hunks false maxOffset = ([], .ok c) ∧
        MadeInPlace maxOffset (orderedSplices (joinSections sections).hunks false) a c) ∧
      options.comparison.compared c = options.comparison.compared b := by
  have hCompares := compares_editScript options.comparison a b
  have hReads : Reads (diffTexts options a b file1 file2) a b
      (editScript options.comparison a b) := by
    have hDiffer : options.comparison.compared a ≠ options.comparison.compared b := by
      intro hSame
      exact hSome (if_pos hSame)
    rcases hFormat with hFormat | hFormat
    · have hText : diffTexts options a b file1 file2 =
          renderNormal a b (editScript options.comparison a b) := by
        simp [diffTexts, hDiffer, hBrief, hFormat]
      rw [hText] at hSome ⊢
      refine reads_normal hA hB hCompares.toCovers fun hNone => hSome ?_
      rw [renderNormal, hNone]
      rfl
    · have hText : diffTexts options a b file1 file2 = renderUnified a b
          (editScript options.comparison a b) file1 file2 options.context := by
        simp [diffTexts, hDiffer, hBrief, hFormat]
      rw [hText] at hSome ⊢
      refine reads_unified hA hB hCompares.toCovers options.context hFile1 hFile2
        fun hNone => hSome ?_
      rw [renderUnified, hunks, hNone]
  obtain ⟨sections, ranges, hParse, hShown, hMade⟩ := hReads.exists_patched hCompares.toCovers
  exact ⟨sections, _, hParse, fun maxOffset => ⟨(hMade maxOffset).applySplices_eq, hMade maxOffset⟩,
    compared_patched hCompares hShown⟩

/-- Blank lines that are deleted, added and face each other, around a change that is shown. -/
theorem ignoring_roundTrip_blanks :
    let options : Options := ⟨⟨true, false, true, true⟩, .unified, 1, false⟩
    let a : List Text := ["", "A  b", " ", "c", "", "", "d"]
    let b : List Text := ["a b", "", "x", "", "D", " "]
    ∃ sections c, parse (diffTexts options a b "old" "new") = .ok sections ∧
      (∀ maxOffset, apply a (joinSections sections).hunks false maxOffset = ([], .ok c) ∧
        MadeInPlace maxOffset (orderedSplices (joinSections sections).hunks false) a c) ∧
      options.comparison.compared c = options.comparison.compared b :=
  ignoring_roundTrip rfl (Or.inr rfl) (by decide) (by decide) (by decide) (by decide) (by decide)

end TreeShell.Patch
