import TreeShell.Diff.Render
import TreeShell.Proofs.Diff.Comparison
import TreeShell.Proofs.Diff.Shown

/-! When a difference is written as nothing. A script without a reported change gives an empty
text in each of the three forms, and every other script gives one that begins with a head. Such
a script is found exactly between lists that the comparison takes for equal, so that looking at
the compared lines first, before a script is made, decides nothing else. -/
namespace TreeShell

theorem Text.joinLines_ne_nil {line : Text} (h : line ≠ []) (lines : List Text) :
    joinLines (line :: lines) ≠ [] := by
  cases lines with
  | nil => exact h
  | cons next rest =>
      intro hNil
      change line ++ [chr '\n'] ++ join [chr '\n'] (next :: rest) = [] at hNil
      rw [List.append_assoc, List.append_eq_nil_iff] at hNil
      exact h hNil.1

namespace Diff

/-- An edit that no reader is told of by itself: a line is kept, or a line that takes no part in
the comparison is deleted or added. -/
def Edit.isQuiet (edit : Edit) : Bool := edit.isCommon || edit.isBlank

/-- No change is reported exactly if every edit is quiet. -/
theorem reportedChanges_eq_nil_iff {edits : List Edit} :
    reportedChanges edits = [] ↔ ∀ edit ∈ edits, edit.isQuiet = true := by
  rw [reportedChanges, List.filter_eq_nil_iff]
  constructor
  · intro h edit hMem
    rw [Edit.isQuiet, Bool.or_eq_true_iff]
    by_contra hLoud
    rw [not_or, Bool.not_eq_true] at hLoud
    obtain ⟨k, hk⟩ := List.mem_iff_getElem?.mp hMem
    obtain ⟨range, hRange, hStart, hStop⟩ := holdChanges_changes edits k edit hk hLoud.1
    have hSlice : edit ∈ range.slice edits := by
      refine List.mem_iff_getElem?.mpr ⟨k - range.start, ?_⟩
      rw [Range.slice, List.getElem?_take, if_pos (by omega), List.getElem?_drop,
        Nat.add_sub_cancel' hStart, hk]
    have hAll : (range.slice edits).all Edit.isBlank = true := by simpa using h range hRange
    exact hLoud.2 (List.all_eq_true.mp hAll edit hSlice)
  · intro h range hRange
    have hAll : (range.slice edits).all Edit.isBlank = true := by
      refine List.all_eq_true.mpr fun edit hMem => ?_
      have hEdit : edit ∈ edits := List.mem_of_mem_drop (List.mem_of_mem_take hMem)
      have hQuiet := h edit hEdit
      rwa [Edit.isQuiet, (onlyChanges_changes range hRange).mem_slice edit hMem,
        Bool.false_or] at hQuiet
    rw [hAll]
    exact Bool.false_ne_true

/-- Hunks are made for reported changes only, and for each of them. -/
theorem hunks_eq_nil_iff {edits : List Edit} {context : Int} :
    hunks edits context = [] ↔ reportedChanges edits = [] := by
  obtain ⟨ranges, hHunks, hShown⟩ := hunks_eq_map_shown edits context
  rw [hHunks, List.map_eq_nil_iff]
  constructor
  · rintro rfl
    refine List.eq_nil_iff_forall_not_mem.mpr fun change hChange => ?_
    obtain ⟨range, hRange, _⟩ := hShown.whole change hChange
    cases hRange
  · intro hNone
    refine List.eq_nil_iff_forall_not_mem.mpr fun range hRange => ?_
    obtain ⟨change, hChange, _⟩ := hShown.needed range hRange
    rw [hNone] at hChange
    cases hChange

section Render

variable (a b : List Text) (edits : List Edit)

/-- A change in the normal form begins with a line that has a letter in it. -/
theorem exists_renderChange (range : Range) :
    ∃ head lines, renderChange a b edits range = head :: lines ∧ head ≠ [] := by
  refine ⟨_, _, rfl, ?_⟩
  dsimp only
  split
  · simp
  · split <;> simp

/-- A normal diff is empty exactly if no change is reported. -/
theorem renderNormal_eq_nil_iff : renderNormal a b edits = [] ↔ reportedChanges edits = [] := by
  rw [renderNormal]
  cases reportedChanges edits with
  | nil => exact iff_of_true rfl rfl
  | cons range rest =>
      obtain ⟨head, lines, hChange, hHead⟩ := exists_renderChange a b edits range
      refine iff_of_false ?_ (List.cons_ne_nil _ _)
      rw [List.flatMap_cons, hChange]
      exact Text.joinLines_ne_nil hHead _

variable (file1 file2 : Text) (context : Int)

/-- A unified diff is empty exactly if no change is reported. -/
theorem renderUnified_eq_nil_iff :
    renderUnified a b edits file1 file2 context = [] ↔ reportedChanges edits = [] := by
  rw [← hunks_eq_nil_iff, renderUnified]
  cases hunks edits context with
  | nil => exact iff_of_true rfl rfl
  | cons hunk rest =>
      exact iff_of_false (Text.joinLines_ne_nil (List.cons_ne_nil _ _) _) (List.cons_ne_nil _ _)

/-- A context diff is empty exactly if no change is reported. -/
theorem renderContext_eq_nil_iff :
    renderContext a b edits file1 file2 context = [] ↔ reportedChanges edits = [] := by
  rw [← hunks_eq_nil_iff, renderContext]
  cases hunks edits context with
  | nil => exact iff_of_true rfl rfl
  | cons hunk rest =>
      exact iff_of_false (Text.joinLines_ne_nil (List.cons_ne_nil _ _) _) (List.cons_ne_nil _ _)

end Render

theorem sharedLength_self {α : Type} [DecidableEq α] (a : List α) : sharedLength a a = a.length := by
  induction a with
  | nil => rfl
  | cons x a ih => rw [sharedLength, if_pos rfl, ih, List.length_cons]

/-- Between equal lists nothing is left for the table. -/
theorem script_self {α : Type} [DecidableEq α] (a : List α) : script a a = keep a.length := by
  simp [script, sharedLength_self, rowFor, firstRow, top, keep]

/-- The lines that take part are found at their places. -/
theorem Comparison.filterMap_seen_range (options : Comparison) (lines : List Text) :
    (List.range lines.length).filterMap (fun i => options.seen (lineAt lines i)) =
      options.compared lines := by
  conv_rhs => rw [options.compared_eq, ← map_lineAt_range lines, List.filterMap_map]
  rfl

section Compared

variable {options : Comparison} {a b : List Text}

/-- Through quiet edits the comparison sees the same lines on both sides. -/
theorem Compares.compared_eq {edits : List Edit} (h : Compares options a b edits)
    (hQuiet : ∀ edit ∈ edits, edit.isQuiet = true) : options.compared a = options.compared b := by
  have hEdit : ∀ edit ∈ edits, (edit.old?.bind fun i => options.seen (lineAt a i)) =
      edit.new?.bind fun j => options.seen (lineAt b j) := by
    intro edit hMem
    cases edit with
    | common i j => exact h.common i j hMem
    | delete i blank =>
        have hBlank : blank = true := hQuiet _ hMem
        rw [h.delete i blank hMem, Bool.not_eq_true'] at hBlank
        exact options.seen_eq_none_iff.mpr hBlank
    | add j blank =>
        have hBlank : blank = true := hQuiet _ hMem
        rw [h.add j blank hMem, Bool.not_eq_true'] at hBlank
        exact (options.seen_eq_none_iff.mpr hBlank).symm
  calc options.compared a
      = (edits.filterMap Edit.old?).filterMap fun i => options.seen (lineAt a i) := by
        rw [h.olds, options.filterMap_seen_range]
    _ = (edits.filterMap Edit.new?).filterMap fun j => options.seen (lineAt b j) := by
        rw [List.filterMap_filterMap, List.filterMap_filterMap]
        exact List.filterMap_congr hEdit
    _ = options.compared b := by
        rw [h.news, options.filterMap_seen_range]

/-- Between lists that compare equal every edit is quiet. -/
theorem isQuiet_of_compared_eq (h : options.compared a = options.compared b) :
    ∀ edit ∈ editScript options a b, edit.isQuiet = true := by
  intro edit hMem
  rcases (editScript_parts options a b).2 edit hMem with hCompared | hOut
  · rw [comparedScript, ← h, script_self] at hCompared
    obtain ⟨found, hFound, rfl⟩ := List.mem_map.mp hCompared
    obtain ⟨k, _, rfl⟩ := List.mem_map.mp hFound
    rfl
  · cases edit with
    | common i j => rfl
    | delete i blank => exact hOut.2
    | add j blank => exact hOut.2

/-- A script reports a change exactly if its lists do not compare equal. -/
theorem reportedChanges_editScript (options : Comparison) (a b : List Text) :
    reportedChanges (editScript options a b) = [] ↔ options.compared a = options.compared b := by
  rw [reportedChanges_eq_nil_iff]
  exact ⟨(compares_editScript options a b).compared_eq, isQuiet_of_compared_eq⟩

end Compared

/-- Whatever the format, nothing is reported exactly if the texts compare equal. -/
theorem diffTexts_eq_nil_of_compared (options : Options) (a b : List Text) (file1 file2 : Text) :
    diffTexts options a b file1 file2 = [] ↔
      options.comparison.compared a = options.comparison.compared b := by
  have hReported := reportedChanges_editScript options.comparison a b
  rw [diffTexts]
  split
  · rename_i hSame
    exact iff_of_true rfl hSame
  · rename_i hDiffer
    refine iff_of_false ?_ hDiffer
    split
    · exact List.cons_ne_nil _ _
    · rw [← hReported] at hDiffer
      cases options.format with
      | normal => exact mt (renderNormal_eq_nil_iff ..).mp hDiffer
      | unified => exact mt (renderUnified_eq_nil_iff ..).mp hDiffer
      | context => exact mt (renderContext_eq_nil_iff ..).mp hDiffer

/-- Whatever is ignored, a script between two lists is written as nothing, in each form and with
any context and names, exactly if the lists compare equal. This is the case exactly if the script
deletes and adds no line that takes part; and it is where the difference in words is empty,
whether it is to be brief or not. -/
theorem written_empty_iff (comparison : Comparison) (a b : List Text) :
    let edits := editScript comparison a b
    let same := comparison.compared a = comparison.compared b
    (renderNormal a b edits = [] ↔ same) ∧
    (∀ file1 file2 context, renderUnified a b edits file1 file2 context = [] ↔ same) ∧
    (∀ file1 file2 context, renderContext a b edits file1 file2 context = [] ↔ same) ∧
    ((∀ edit ∈ edits, edit.isCommon = true ∨ edit.isBlank = true) ↔ same) ∧
    ∀ format context brief file1 file2,
      diffTexts ⟨comparison, format, context, brief⟩ a b file1 file2 = [] ↔ same := by
  have hReported := reportedChanges_editScript comparison a b
  refine ⟨?_, fun file1 file2 context => ?_, fun file1 file2 context => ?_, ?_, ?_⟩
  · rw [renderNormal_eq_nil_iff, hReported]
  · rw [renderUnified_eq_nil_iff, hReported]
  · rw [renderContext_eq_nil_iff, hReported]
  · rw [← hReported, reportedChanges_eq_nil_iff]
    simp only [Edit.isQuiet, Bool.or_eq_true]
  · exact fun format context brief => diffTexts_eq_nil_of_compared ⟨comparison, format, context, brief⟩ a b

end Diff

end TreeShell
