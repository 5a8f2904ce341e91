import TreeShell.Proofs.Patch.Returns

/-! Patches for several files. The written differences of the files stand one after the other,
and nothing but the counts in the heads says where the lines of one file end. The main statement
is `parse_joined`: every difference is found again as the section that it is read as alone. -/
namespace TreeShell.Patch

open Text Diff

/-- Two states of a file that differ, their names, and the lines of context that are shown. Every
line and both names are free of ends of line. -/
structure Revision where
  old : List Text
  new : List Text
  oldName : Text
  newName : Text
  context : Int
  differ : old ≠ new
  oldLines : ∀ t ∈ old, chr '\n' ∉ t
  newLines : ∀ t ∈ new, chr '\n' ∉ t
  names : chr '\n' ∉ oldName ∧ chr '\n' ∉ newName

/-- The hunk that a shown hunk is read as. -/
def readHunk (a b : List Text) (edits : List Edit) (hunk : Diff.Hunk) : Hunk :=
  .unified hunk.oldFirst hunk.oldCount hunk.newFirst hunk.newCount
    ((hunk.range.slice edits).map (hunkLine a b))

namespace Revision

def text (r : Revision) : Text :=
  renderUnified r.old r.new (script r.old r.new) r.oldName r.newName r.context

/-- The hunks that are shown. -/
def shown (r : Revision) : List Diff.Hunk := hunks (script r.old r.new) r.context

/-- The section that the difference is read as. -/
def toSection (r : Revision) : Section where
  source := some (fileName (dropFinal (chr '\r') ("--- " ++ r.oldName)))
  target := some (fileName (dropFinal (chr '\r') ("+++ " ++ r.newName)))
  hunks := r.shown.map (readHunk (withoutReturns r.old) (withoutReturns r.new) (script r.old r.new))

/-- The lines of the hunks as a reader of patches sees them. -/
def body (r : Revision) : List Text :=
  r.shown.flatMap
    (renderUnifiedHunk (withoutReturns r.old) (withoutReturns r.new) (script r.old r.new))

/-- The lines of the difference as a reader of patches sees them. -/
def lines (r : Revision) : List Text :=
  dropFinal (chr '\r') ("--- " ++ r.oldName) :: dropFinal (chr '\r') ("+++ " ++ r.newName) :: r.body

theorem exists_ranges (r : Revision) : ∃ ranges, ranges ≠ [] ∧
    r.shown = ranges.map (Diff.Hunk.covering (script r.old r.new)) := by
  obtain ⟨ranges, hHunks, _, hHold⟩ :=
    hunks_eq_map_covering (isBlank_script r.old r.new) r.context
  exact ⟨ranges, ranges_ne_nil r.differ (isScript_script r.old r.new) hHold, hHunks⟩

theorem kept_toSection (r : Revision) : r.toSection.kept = [r.toSection] := by
  obtain ⟨ranges, hRanges, hShown⟩ := r.exists_ranges
  simp [Section.kept, toSection, hShown, hRanges]

end Revision

section Lines

variable {a b : List Text}

/-- A line of a file loses a carriage return at its end and keeps its mark. -/
theorem patchLines_marked {lines : List Text} (h : ∀ t ∈ lines, chr '\n' ∉ t) {c : CodePoint}
    (hBreak : c ≠ '\n') (hReturn : c ≠ '\r') (i : Nat) :
    patchLines (c :: lineAt lines i) = [c :: lineAt (withoutReturns lines) i] := by
  have hLine : chr '\n' ∉ lineAt lines i := by
    rw [lineAt, List.getD_eq_getElem?_getD]
    cases hGet : lines[i]? with
    | none => exact List.not_mem_nil
    | some line => exact h line (List.mem_of_getElem? hGet)
  rw [patchLines_cons hBreak hReturn, patchLines_of_noBreak hLine, lineAt_withoutReturns]
  rfl

/-- The reader of patches sees one line for an edit, without the return at its end. -/
theorem patchLines_edit (hA : ∀ t ∈ a, chr '\n' ∉ t) (hB : ∀ t ∈ b, chr '\n' ∉ t) (edit : Edit) :
    patchLines (renderUnifiedEdit a b edit) =
      [renderUnifiedEdit (withoutReturns a) (withoutReturns b) edit] := by
  cases edit with
  | common i j => exact patchLines_marked hA (by decide) (by decide) i
  | delete i blank => exact patchLines_marked hA (by decide) (by decide) i
  | add j blank => exact patchLines_marked hB (by decide) (by decide) j

/-- A hunk is seen as the hunk of the lines without returns. -/
theorem patchLines_unifiedHunk (hA : ∀ t ∈ a, chr '\n' ∉ t) (hB : ∀ t ∈ b, chr '\n' ∉ t)
    (edits : List Edit) (hunk : Diff.Hunk) :
    (renderUnifiedHunk a b edits hunk).flatMap patchLines =
      renderUnifiedHunk (withoutReturns a) (withoutReturns b) edits hunk := by
  have hHead : patchLines (renderUnifiedHead hunk) = [renderUnifiedHead hunk] := by
    have hLine := isLine_renderUnifiedHead hunk
    rw [patchLines_of_noBreak hLine.noBreak, dropFinal_of_ne hLine.noReturn]
  simp only [renderUnifiedHunk, List.flatMap_cons, List.flatMap_map, hHead, patchLines_edit hA hB,
    List.singleton_append, ← List.map_eq_flatMap]

end Lines

/-- Joining reports and splitting them again gives the lines of the reports, since each ends its
last line. -/
theorem Revision.patchLines_text (r : Revision) : patchLines r.text = r.lines := by
  have hOld : patchLines ("--- " ++ r.oldName) = [dropFinal (chr '\r') ("--- " ++ r.oldName)] :=
    patchLines_of_noBreak (by simpa using r.names.1)
  have hNew : patchLines ("+++ " ++ r.newName) = [dropFinal (chr '\r') ("+++ " ++ r.newName)] :=
    patchLines_of_noBreak (by simpa using r.names.2)
  obtain ⟨ranges, hRanges, hShown⟩ := r.exists_ranges
  obtain ⟨first, rest, rfl⟩ := List.exists_cons_of_ne_nil hRanges
  have hText : r.text = joinLines (["--- " ++ r.oldName, "+++ " ++ r.newName] ++
      r.shown.flatMap (renderUnifiedHunk r.old r.new (script r.old r.new))) := by
    rw [shown] at hShown ⊢
    rw [text, renderUnified, hShown]
    rfl
  have hSome : ["--- " ++ r.oldName, "+++ " ++ r.newName] ++
      r.shown.flatMap (renderUnifiedHunk r.old r.new (script r.old r.new)) ≠ [] :=
    List.cons_ne_nil _ _
  rw [hText, patchLines_joinLines_flatMap hSome, List.flatMap_append, List.flatMap_assoc]
  simp only [List.flatMap_cons, List.flatMap_nil, hOld, hNew,
    patchLines_unifiedHunk r.oldLines r.newLines]
  rfl

/-- A difference is read as its section, whatever stands before it and behind it. -/
theorem Revision.sectionsFrom_lines (r : Revision) (total : Nat) (current : Section)
    {rest : List Text} (hRest : ∀ line ∈ rest.head?, isRemark line = false) {bound : Nat}
    (hBound : r.lines.length + rest.length ≤ bound) :
    ∃ left, rest.length ≤ left ∧ sectionsFrom total bound current (r.lines ++ rest) =
      (sectionsFrom total left r.toSection rest).map (current.kept ++ ·) := by
  obtain ⟨ranges, _, hShown⟩ := r.exists_ranges
  obtain ⟨name1, hName1⟩ := @dropFinal_append "--- " r.oldName (by decide)
  obtain ⟨name2, hName2⟩ := @dropFinal_append "+++ " r.newName (by decide)
  have hLength : ranges.length ≤ r.body.length := by
    rw [body, hShown]
    exact length_le_renderUnified _ _ _ ranges
  obtain ⟨bound, rfl⟩ : ∃ k, bound = k + 1 := ⟨bound - 1, by simp [lines] at hBound; omega⟩
  obtain ⟨left, hLeft, hHunks⟩ := sectionsFrom_hunks (withoutReturns r.old) (withoutReturns r.new)
    (script r.old r.new) total hRest ranges ⟨some (fileName ("--- " ++ name1)),
      some (fileName ("+++ " ++ name2)), []⟩
    (show ranges.length + rest.length ≤ bound by simp [lines] at hBound; omega)
  refine ⟨left, hLeft, ?_⟩
  have hSection : r.toSection = ⟨some (fileName ("--- " ++ name1)),
      some (fileName ("+++ " ++ name2)), ranges.map
        (unifiedOf (withoutReturns r.old) (withoutReturns r.new) (script r.old r.new))⟩ := by
    rw [toSection, hName1, hName2, hShown, List.map_map]
    rfl
  rw [List.nil_append, ← hSection, ← hShown] at hHunks
  rw [lines, hName1, hName2, List.cons_append, List.cons_append,
    sectionsFrom_of_names (readItem_names total name1 name2 _), body, hHunks]

/-- The section at hand ends where the first of some differences begins, and each of these makes
a section of its own. -/
theorem sectionsFrom_revisions (total : Nat) (revisions : List Revision) (current : Section)
    {bound : Nat} (hBound : (revisions.flatMap Revision.lines).length ≤ bound) :
    sectionsFrom total bound current (revisions.flatMap Revision.lines) =
      .ok (current.kept ++ revisions.map Revision.toSection) := by
  induction revisions generalizing current bound with
  | nil => cases bound <;> simp [sectionsFrom]
  | cons r revisions ih =>
      rw [List.flatMap_cons, List.length_append] at hBound
      have hNext : ∀ line ∈ (revisions.flatMap Revision.lines).head?, isRemark line = false := by
        cases revisions with
        | nil => rintro line ⟨⟩
        | cons next revisions =>
            obtain ⟨name, hName⟩ := @dropFinal_append "--- " next.oldName (by decide)
            rintro line ⟨⟩
            rw [hName]
            rfl
      obtain ⟨left, hLeft, hFirst⟩ := r.sectionsFrom_lines total current hNext hBound
      rw [List.flatMap_cons, hFirst, ih r.toSection hLeft, r.kept_toSection]
      rfl

/-- The written differences of several files, joined line by line, are read as one section for
each of them, in order; each section is the one that its difference is read as alone. What the
lines of the files look like does not matter. -/
theorem parse_joined {revisions : List Revision} (hSome : revisions ≠ []) :
    parse (joinLines (revisions.map Revision.text)) = .ok (revisions.map Revision.toSection) ∧
    ∀ r ∈ revisions, parse r.text = .ok [r.toSection] := by
  have hParse {t : Text} {parts : List Revision} (hParts : parts ≠ [])
      (hLines : patchLines t = parts.flatMap Revision.lines) :
      parse t = .ok (parts.map Revision.toSection) := by
    let total := (parts.flatMap Revision.lines).length
    have hSections : sectionsFrom total total ⟨none, none, []⟩ (parts.flatMap Revision.lines) =
        .ok (parts.map Revision.toSection) :=
      sectionsFrom_revisions total parts ⟨none, none, []⟩ (Nat.le_refl total)
    rw [parse, hLines]
    change (sectionsFrom total total _ _ >>= _) = _
    obtain ⟨first, others, rfl⟩ := List.exists_cons_of_ne_nil hParts
    rw [hSections]
    rfl
  refine ⟨hParse hSome ?_, fun r _ => hParse (List.cons_ne_nil r []) ?_⟩
  · rw [patchLines_joinLines_flatMap (by simpa using hSome), List.flatMap_map]
    simp only [Revision.patchLines_text]
  · rw [r.patchLines_text, List.flatMap_singleton]

/-- Lines that look like names, heads and remarks between the differences of two files, and one
that ends in a carriage return. -/
def lookalikes : List Revision :=
  [⟨["-- x", "@@ -1 +1 @@", ""], ["++ y", "1c1", "\\ z"], "old\tx", "new", 0,
      by decide, by decide, by decide, by decide⟩,
    ⟨["*** 1 ****", "a"], ["--- 1 ----", "a\r"], "", "+++ new\r", -1,
      by decide, by decide, by decide, by decide⟩]

theorem parse_joined_lookalikes :
    lookalikes ≠ [] ∧
    parse (joinLines (lookalikes.map Revision.text)) = .ok (lookalikes.map Revision.toSection) ∧
    ∀ r ∈ lookalikes, parse r.text = .ok [r.toSection] :=
  ⟨List.cons_ne_nil _ _, parse_joined (List.cons_ne_nil _ _)⟩

end TreeShell.Patch
