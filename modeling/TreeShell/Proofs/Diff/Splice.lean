import TreeShell.Diff.Render
import TreeShell.Proofs.Diff.Shown
import TreeShell.Proofs.Patch.Splice

/-! The replacements that ranges of a script stand for. Ranges with common lines between them
can be replaced one by one, and nothing outside of them is touched. If they hold every change,
the replacements turn the one side of the script into the other; this holds in both directions,
since nothing but the choice of the sides enters. -/
namespace TreeShell.Diff

open Patch

/-- The replacement for a range of edits, when `before` and `after` give the line that an
edit has on either side. -/
def spliceOf (before after : Edit → Option Text) (edits : List Edit) (range : Range) : Splice where
  oldIndex := ((edits.take range.start).filterMap before).length
  oldLines := (range.slice edits).filterMap before
  newIndex := ((edits.take range.start).filterMap after).length
  newLines := (range.slice edits).filterMap after

/-- The sides agree on the lines that stay. -/
def Sides (before after : Edit → Option Text) : Prop :=
  ∀ edit, edit.isCommon = true → ∃ line, before edit = some line ∧ after edit = some line

theorem Sides.symm {before after : Edit → Option Text} (h : Sides before after) :
    Sides after before := by
  intro edit hCommon
  obtain ⟨line, hBefore, hAfter⟩ := h edit hCommon
  exact ⟨line, hAfter, hBefore⟩

theorem length_filterMap_take_le (side : Edit → Option Text) (edits : List Edit) {k l : Nat}
    (h : k ≤ l) :
    ((edits.take k).filterMap side).length ≤ ((edits.take l).filterMap side).length :=
  ((List.take_sublist_take_left h).filterMap side).length_le

/-- A common edit between two places puts a line between them. -/
theorem length_filterMap_take_lt {side : Edit → Option Text} {edits : List Edit}
    {k l place : Nat} {edit : Edit} {line : Text} (hEdit : edits[place]? = some edit)
    (hLine : side edit = some line) (hLow : k ≤ place) (hHigh : place < l) :
    ((edits.take k).filterMap side).length < ((edits.take l).filterMap side).length := by
  have hFirst := length_filterMap_take_le side edits hLow
  have hLast := length_filterMap_take_le side edits (show place + 1 ≤ l by omega)
  rw [List.take_add_one, hEdit] at hLast
  simp only [Option.toList_some, List.filterMap_append, List.length_append, List.filterMap_cons,
    hLine, List.filterMap_nil, List.length_singleton] at hLast
  omega

/-- The lines from `place` on when the ranges have been replaced: their edits give the lines
of the one side, and all other edits those of the other. -/
def patchedFrom (before after : Edit → Option Text) (edits : List Edit) (place : Nat) :
    List Range → List Text
  | [] => (edits.drop place).filterMap before
  | range :: rest =>
      ((edits.drop place).take (range.start - place)).filterMap before ++
        ((range.slice edits).filterMap after ++ patchedFrom before after edits range.stop rest)

/-- The edits from `place` on: those before a range, those in it and those behind it. -/
theorem drop_eq_append_slice {edits : List Edit} {range : Range} {place : Nat}
    (hPlace : place ≤ range.start) (hRange : range.start ≤ range.stop) :
    edits.drop place = (edits.drop place).take (range.start - place) ++
      (range.slice edits ++ edits.drop range.stop) := by
  have hStart : (edits.drop place).drop (range.start - place) = edits.drop range.start := by
    rw [List.drop_drop, Nat.add_sub_cancel' hPlace]
  have hStop : (edits.drop range.start).drop (range.stop - range.start) = edits.drop range.stop := by
    rw [List.drop_drop, Nat.add_sub_cancel' hRange]
  rw [Range.slice, ← hStop, List.take_append_drop, ← hStart, List.take_append_drop]

theorem take_eq_append_gap {edits : List Edit} {place start : Nat} (h : place ≤ start) :
    edits.take start = edits.take place ++ (edits.drop place).take (start - place) := by
  rw [← List.take_add, Nat.add_sub_cancel' h]

/-- Ranges that are apart can be replaced one by one. What stands before a range, also an
ignored change, is left as it was. -/
theorem rewrites_patchedFrom {before after : Edit → Option Text} (hSides : Sides before after)
    {edits : List Edit} {ranges : List Range} {place first : Nat}
    (hSpaced : Spaced 0 edits.length first ranges) (hPlace : place ≤ first)
    (hApart : ranges.Pairwise (Apart edits)) :
    Rewrites ((edits.take place).filterMap before).length
      (ranges.map (spliceOf before after edits))
      ((edits.drop place).filterMap before) (patchedFrom before after edits place ranges) := by
  induction ranges generalizing place first with
  | nil => exact .done _ _
  | cons range rest ih =>
      obtain ⟨hFirst, hStart, hStop, hRest⟩ := hSpaced
      obtain ⟨hNext, hOthers⟩ := List.pairwise_cons.mp hApart
      have hLow : place ≤ range.start := Nat.le_trans hPlace hFirst
      have hHigh : range.start ≤ range.stop := Nat.le_of_lt hStart
      have hAscending : ∀ next ∈ rest.map (spliceOf before after edits),
          (spliceOf before after edits range).oldIndex < next.oldIndex := by
        intro next hMem
        obtain ⟨found, hFound, rfl⟩ := List.mem_map.mp hMem
        obtain ⟨k, edit, hFrom, hTo, hEdit, hCommon⟩ := hNext found hFound
        obtain ⟨line, hLine, _⟩ := hSides edit hCommon
        exact Int.ofNat_lt.mpr (length_filterMap_take_lt hEdit hLine hFrom hTo)
      have hLater := ih hRest (Nat.le_succ range.stop) hOthers
      rw [take_eq_append_gap hHigh, take_eq_append_gap hLow, List.filterMap_append,
        List.filterMap_append, List.length_append, List.length_append] at hLater
      rw [drop_eq_append_slice hLow hHigh, List.filterMap_append, List.filterMap_append, patchedFrom]
      refine .replace ?_ hAscending hLater
      rw [spliceOf, take_eq_append_gap hLow, List.filterMap_append, List.length_append]
      rfl

/-- Seen through `view`, replacing the ranges makes the one side out of the other, if the
sides cannot be told apart outside of them. -/
theorem filterMap_patchedFrom {before after : Edit → Option Text} {α : Type}
    {view : Text → Option α} {edits : List Edit} {ranges : List Range} {place first : Nat}
    (hSpaced : Spaced 0 edits.length first ranges) (hPlace : place ≤ first)
    (hOutside : ∀ k edit, place ≤ k → edits[k]? = some edit →
      (∀ range ∈ ranges, k < range.start ∨ range.stop ≤ k) →
        (before edit).bind view = (after edit).bind view) :
    (patchedFrom before after edits place ranges).filterMap view =
      ((edits.drop place).filterMap after).filterMap view := by
  induction ranges generalizing place first with
  | nil =>
      rw [patchedFrom, List.filterMap_filterMap, List.filterMap_filterMap]
      apply List.filterMap_congr
      intro edit hMem
      obtain ⟨k, hk⟩ := List.mem_iff_getElem?.mp hMem
      rw [List.getElem?_drop] at hk
      exact hOutside (place + k) edit (by omega) hk (by simp)
  | cons range rest ih =>
      obtain ⟨hFirst, hStart, hStop, hRest⟩ := hSpaced
      have hLow : place ≤ range.start := Nat.le_trans hPlace hFirst
      have hGap : (((edits.drop place).take (range.start - place)).filterMap before).filterMap view =
          (((edits.drop place).take (range.start - place)).filterMap after).filterMap view := by
        rw [List.filterMap_filterMap, List.filterMap_filterMap]
        apply List.filterMap_congr
        intro edit hMem
        obtain ⟨k, hk⟩ := List.mem_iff_getElem?.mp hMem
        rw [List.getElem?_take, List.getElem?_drop] at hk
        split at hk
        · refine hOutside (place + k) edit (by omega) hk fun found hFound => Or.inl ?_
          rcases List.mem_cons.mp hFound with rfl | hFound
          · omega
          · have hBehind := (hRest.mem found hFound).1
            omega
        · cases hk
      have hLater := ih hRest (Nat.le_succ range.stop) (by
        intro k edit hk hEdit hRanges
        refine hOutside k edit (by omega) hEdit fun found hFound => ?_
        rcases List.mem_cons.mp hFound with rfl | hFound
        · exact Or.inr hk
        · exact hRanges found hFound)
      conv_rhs => rw [drop_eq_append_slice hLow (Nat.le_of_lt hStart)]
      simp only [patchedFrom, List.filterMap_append, hGap, hLater]

/-- Ranges that hold every change have common lines between them. -/
theorem HoldChanges.apart {edits : List Edit} {ranges : List Range} {first : Nat}
    (hHold : HoldChanges ranges edits) (hSpaced : Spaced 0 edits.length first ranges) :
    ranges.Pairwise (Apart edits) := by
  refine hSpaced.pairwise.imp_of_mem fun {range later} hRange hLater hBehind => ?_
  obtain ⟨_, hStart, _⟩ := hSpaced.mem range hRange
  obtain ⟨_, hNonempty, hStop⟩ := hSpaced.mem later hLater
  have hEdit : edits[range.stop]? = some edits[range.stop] := List.getElem?_eq_getElem (by omega)
  refine ⟨range.stop, _, by omega, by omega, hEdit, ?_⟩
  by_contra hChange
  obtain ⟨found, hFound, hLow, hHigh⟩ := hHold range.stop _ hEdit (by simpa using hChange)
  rcases hSpaced.stop_le_or_lt hRange hFound with hBefore | hAfter <;> omega

/-- Replacing ranges that hold every change makes the one side out of the other. -/
theorem rewrites_of_spaced {before after : Edit → Option Text} (hSides : Sides before after)
    {edits : List Edit} {ranges : List Range} (hSpaced : Spaced 0 edits.length 0 ranges)
    (hHold : HoldChanges ranges edits) :
    Rewrites 0 (ranges.map (spliceOf before after edits))
      (edits.filterMap before) (edits.filterMap after) := by
  have hRewrites := rewrites_patchedFrom hSides hSpaced (Nat.le_refl 0) (hHold.apart hSpaced)
  have hPatched := @filterMap_patchedFrom before after Text some edits ranges 0 0 hSpaced
    (Nat.le_refl 0) (by
      intro k edit _ hEdit hOutside
      have hCommon : edit.isCommon = true := by
        by_contra hChange
        obtain ⟨range, hRange, hLow, hHigh⟩ := hHold k edit hEdit (by simpa using hChange)
        rcases hOutside range hRange with hBefore | hBehind <;> omega
      obtain ⟨line, hBefore, hAfter⟩ := hSides edit hCommon
      rw [hBefore, hAfter])
  rw [List.filterMap_some, List.filterMap_some] at hPatched
  rwa [hPatched, List.drop_zero] at hRewrites

def oldText? (a : List Text) (edit : Edit) : Option Text := edit.old?.map (lineAt a)

/-- The new line of an edit; a line that stays is taken from the old side. -/
def newText? (a b : List Text) : Edit → Option Text
  | .common i _ => some (lineAt a i)
  | .delete .. => none
  | .add j _ => some (lineAt b j)

theorem sides_texts (a b : List Text) : Sides (oldText? a) (newText? a b) := by
  intro edit hCommon
  cases edit with
  | common i j => exact ⟨lineAt a i, rfl, rfl⟩
  | delete i blank => cases hCommon
  | add j blank => cases hCommon

theorem filterMap_oldText? (a : List Text) (edits : List Edit) :
    edits.filterMap (oldText? a) = (edits.filterMap Edit.old?).map (lineAt a) := by
  rw [List.map_filterMap]
  rfl

theorem length_filterMap_oldText? (a : List Text) (edits : List Edit) :
    (edits.filterMap (oldText? a)).length = oldCount edits := by
  rw [filterMap_oldText?, List.length_map]
  rfl

/-- The new text of a window has as many lines as the window counts. -/
theorem length_filterMap_newText? (a b : List Text) (edits : List Edit) :
    (edits.filterMap (newText? a b)).length = newCount edits := by
  induction edits with
  | nil => rfl
  | cons edit rest ih =>
      cases edit with
      | common i j => exact congrArg (· + 1) ih
      | delete i blank => exact ih
      | add j blank => exact congrArg (· + 1) ih

theorem map_lineAt_range (a : List Text) : (List.range a.length).map (lineAt a) = a :=
  map_getD_range a []

theorem Covers.filterMap_oldText? {a : List Text} {n : Nat} {edits : List Edit}
    (h : Covers a.length n edits) : edits.filterMap (oldText? a) = a := by
  rw [Diff.filterMap_oldText?, h.olds, map_lineAt_range]

/-- Common and added lines in order are the new text. -/
theorem IsScript.filterMap_newText? {a b : List Text} {edits : List Edit}
    (h : IsScript a b edits) : edits.filterMap (newText? a b) = b := by
  have hNew := congrArg (List.map (lineAt b)) h.news
  rw [map_lineAt_range, List.map_filterMap] at hNew
  refine Eq.trans (List.filterMap_congr ?_) hNew
  intro edit hMem
  cases edit with
  | common i j =>
      have hSame : lineAt a i = lineAt b j := by
        simp only [lineAt, List.getD_eq_getElem?_getD, h.common i j hMem]
      exact congrArg some hSame
  | delete i blank => rfl
  | add j blank => rfl

/-- The replacements for ranges that hold every change turn the old lines into the new ones. -/
theorem IsScript.rewrites {a b : List Text} {edits : List Edit} {ranges : List Range}
    (h : IsScript a b edits) (hSpaced : Spaced 0 edits.length 0 ranges)
    (hHold : HoldChanges ranges edits) :
    Rewrites 0 (ranges.map (spliceOf (oldText? a) (newText? a b) edits)) a b := by
  have hRewrites := rewrites_of_spaced (sides_texts a b) hSpaced hHold
  rwa [h.filterMap_oldText?, h.filterMap_newText?] at hRewrites

/-- Turned around, they turn the new lines into the old ones. -/
theorem IsScript.rewrites_reverse {a b : List Text} {edits : List Edit} {ranges : List Range}
    (h : IsScript a b edits) (hSpaced : Spaced 0 edits.length 0 ranges)
    (hHold : HoldChanges ranges edits) :
    Rewrites 0 (ranges.map fun range =>
      (spliceOf (oldText? a) (newText? a b) edits range).reverse) b a := by
  have hRewrites := rewrites_of_spaced (sides_texts a b).symm hSpaced hHold
  rwa [h.filterMap_oldText?, h.filterMap_newText?] at hRewrites

end TreeShell.Diff
