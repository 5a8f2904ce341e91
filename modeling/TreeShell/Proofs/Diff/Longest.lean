import TreeShell.Proofs.Diff.Splice

/-! Why no edit script is shorter. A cell of the table counts the lines of a longest common
part of its two lists, and what two lists begin and end with in common belongs to a longest
common part of both. The main statement is `script_minimal`. -/
namespace TreeShell.Diff

section Longest

variable {α : Type} {xs ys : List α} {n : Nat}

/-- The longest lists that both lists contain, in order but not in one piece, have `n` elements. -/
structure LongestCommon (xs ys : List α) (n : Nat) : Prop where
  attained : ∃ part : List α, part.Sublist xs ∧ part.Sublist ys ∧ part.length = n
  bound : ∀ part : List α, part.Sublist xs → part.Sublist ys → part.length ≤ n

theorem LongestCommon.symm (h : LongestCommon xs ys n) : LongestCommon ys xs n where
  attained := by
    obtain ⟨part, hLeft, hRight, hLength⟩ := h.attained
    exact ⟨part, hRight, hLeft, hLength⟩
  bound part hLeft hRight := h.bound part hRight hLeft

theorem longestCommon_nil (ys : List α) : LongestCommon [] ys 0 where
  attained := ⟨[], List.nil_sublist _, List.nil_sublist _, rfl⟩
  bound _ hLeft _ := hLeft.length_le

/-- An element that both lists begin with belongs to a longest common part. -/
theorem LongestCommon.cons (h : LongestCommon xs ys n) (x : α) :
    LongestCommon (x :: xs) (x :: ys) (n + 1) where
  attained := by
    obtain ⟨part, hLeft, hRight, hLength⟩ := h.attained
    exact ⟨x :: part, hLeft.cons_cons x, hRight.cons_cons x, congrArg (· + 1) hLength⟩
  bound := by
    intro part hLeft hRight
    have hTail := h.bound part.tail hLeft.tail hRight.tail
    rw [List.length_tail] at hTail
    omega

/-- A common part of lists that begin differently goes without one of the two beginnings. -/
theorem LongestCommon.cons_of_ne {x y : α} (hDiffer : x ≠ y) {up left : Nat}
    (hUp : LongestCommon xs (y :: ys) up) (hLeft : LongestCommon (x :: xs) ys left) :
    LongestCommon (x :: xs) (y :: ys) (max up left) where
  attained := by
    rcases Nat.le_total left up with hLess | hLess
    · obtain ⟨part, hOld, hNew, hLength⟩ := hUp.attained
      exact ⟨part, hOld.cons x, hNew, by omega⟩
    · obtain ⟨part, hOld, hNew, hLength⟩ := hLeft.attained
      exact ⟨part, hOld, hNew.cons y, by omega⟩
  bound := by
    intro part hOld hNew
    cases hOld with
    | cons _ hOld => exact Nat.le_trans (hUp.bound part hOld hNew) (Nat.le_max_left ..)
    | cons_cons _ hOld =>
        cases hNew with
        | cons _ hNew =>
            exact Nat.le_trans (hLeft.bound _ (hOld.cons_cons x) hNew) (Nat.le_max_right ..)
        | cons_cons => exact absurd rfl hDiffer

/-- A common front adds its length to what is common at most. -/
theorem LongestCommon.append_left (h : LongestCommon xs ys n) (front : List α) :
    LongestCommon (front ++ xs) (front ++ ys) (front.length + n) := by
  induction front with
  | nil => simpa using h
  | cons x front ih =>
      rw [List.length_cons, Nat.add_right_comm]
      exact ih.cons x

/-- Reversing both lists changes nothing about how much they have in common. -/
theorem LongestCommon.reverse (h : LongestCommon xs ys n) :
    LongestCommon xs.reverse ys.reverse n where
  attained := by
    obtain ⟨part, hLeft, hRight, hLength⟩ := h.attained
    exact ⟨part.reverse, hLeft.reverse, hRight.reverse, by rw [List.length_reverse, hLength]⟩
  bound := by
    intro part hLeft hRight
    rw [← List.length_reverse]
    exact h.bound _ (List.reverse_sublist.mp (by simpa using hLeft))
      (List.reverse_sublist.mp (by simpa using hRight))

theorem LongestCommon.append_right (h : LongestCommon xs ys n) (back : List α) :
    LongestCommon (xs ++ back) (ys ++ back) (n + back.length) := by
  have hBack := (h.reverse.append_left back.reverse).reverse
  rw [List.length_reverse, Nat.add_comm] at hBack
  simpa using hBack

end Longest

section Table

variable {α : Type} [DecidableEq α]

/-- The cell of the table for two lists, given from their ends. -/
def cell (xs ys : List α) : Cell := top (rowFor xs ys)

theorem tail_rowFor (xs : List α) (y : α) (ys : List α) :
    (rowFor xs (y :: ys)).tail = rowFor xs ys := by
  induction xs with
  | nil => rfl
  | cons x xs ih => rw [rowFor, nextRow, List.tail_cons, ih, rowFor]

theorem cell_nil_cons (y : α) (ys : List α) :
    cell [] (y :: ys) = ⟨0, .add ys.length false :: (cell [] ys).edits⟩ := rfl

theorem cell_cons_nil (x : α) (xs : List α) :
    cell (x :: xs) [] = ⟨0, .delete xs.length false :: (cell xs []).edits⟩ := rfl

theorem cell_cons_self (x : α) (xs ys : List α) :
    cell (x :: xs) (x :: ys) =
      ⟨(cell xs ys).commons + 1, .common xs.length ys.length :: (cell xs ys).edits⟩ := by
  rw [cell, rowFor, nextRow, tail_rowFor, if_pos rfl]
  rfl

/-- Of two neighbours the one with more common lines is taken, and at a tie the line is added. -/
theorem cell_cons_of_ne {x y : α} (h : x ≠ y) (xs ys : List α) :
    cell (x :: xs) (y :: ys) =
      if (cell xs (y :: ys)).commons ≤ (cell (x :: xs) ys).commons then
        ⟨(cell (x :: xs) ys).commons, .add ys.length false :: (cell (x :: xs) ys).edits⟩
      else ⟨(cell xs (y :: ys)).commons, .delete xs.length false :: (cell xs (y :: ys)).edits⟩ := by
  rw [cell, rowFor, nextRow, tail_rowFor, if_neg h]
  rfl

/-- The table holds in each cell how many lines can be common at most: the induction is on both
lists, as the recursion of the table is. -/
theorem longestCommon_cell (xs ys : List α) : LongestCommon xs ys (cell xs ys).commons := by
  induction xs generalizing ys with
  | nil => cases ys <;> exact longestCommon_nil _
  | cons x xs ihUp =>
      induction ys with
      | nil => exact (longestCommon_nil (x :: xs)).symm
      | cons y ys ihLeft =>
          by_cases hSame : x = y
          · subst hSame
            rw [cell_cons_self]
            exact (ihUp ys).cons x
          · have hLongest := LongestCommon.cons_of_ne hSame (ihUp (y :: ys)) ihLeft
            rw [cell_cons_of_ne hSame]
            split
            · rwa [Nat.max_eq_right (by assumption)] at hLongest
            · rwa [Nat.max_eq_left (by omega)] at hLongest

/-- A cell counts the edits that keep a line. -/
theorem countP_isCommon_cell (xs ys : List α) :
    (cell xs ys).edits.countP Edit.isCommon = (cell xs ys).commons := by
  induction xs generalizing ys with
  | nil =>
      induction ys with
      | nil => rfl
      | cons y ys ih =>
          have hNone : (cell ([] : List α) ys).commons = 0 := by cases ys <;> rfl
          rw [cell_nil_cons, List.countP_cons_of_neg (by simp [Edit.isCommon]), ih, hNone]
  | cons x xs ihUp =>
      induction ys with
      | nil =>
          have hNone : (cell xs []).commons = 0 := by cases xs <;> rfl
          rw [cell_cons_nil, List.countP_cons_of_neg (by simp [Edit.isCommon]), ihUp, hNone]
      | cons y ys ihLeft =>
          by_cases hSame : x = y
          · subst hSame
            rw [cell_cons_self, List.countP_cons_of_pos rfl, ihUp]
          · rw [cell_cons_of_ne hSame]
            split
            · rw [List.countP_cons_of_neg (by simp [Edit.isCommon]), ihLeft]
            · rw [List.countP_cons_of_neg (by simp [Edit.isCommon]), ihUp]

theorem countP_isCommon_keep (n : Nat) : (keep n).countP Edit.isCommon = n := by
  simp [keep, List.countP_map, Function.comp_def, Edit.isCommon]

theorem isCommon_relocate (old new : Nat → Nat) (edit : Edit) :
    (edit.relocate old new).isCommon = edit.isCommon := by
  cases edit <;> rfl

/-- A script keeps the lines of a longest common part. -/
theorem longestCommon_script (a b : List α) :
    LongestCommon a b ((script a b).countP Edit.isCommon) := by
  obtain ⟨front, midA, midB, back, hA, hB, hScript⟩ := script_eq_append a b
  have hMiddle := (longestCommon_cell midA.reverse midB.reverse).reverse
  rw [← countP_isCommon_cell, List.reverse_reverse, List.reverse_reverse] at hMiddle
  have hCount : (script a b).countP Edit.isCommon =
      front.length + ((cell midA.reverse midB.reverse).edits.countP Edit.isCommon + back.length) := by
    simp only [hScript, List.countP_append, List.countP_map, Function.comp_def, isCommon_relocate,
      countP_isCommon_keep, tableScript, List.countP_reverse, cell]
  rw [hCount, hA, hB]
  exact (hMiddle.append_right back).append_left front

end Table

section Script

variable {a b : List Text} {edits : List Edit}

def changeCount (edits : List Edit) : Nat := edits.countP fun edit => !edit.isCommon

/-- Every kept line stands on both sides, so that both sides together count it twice. -/
theorem IsScript.changeCount_eq (h : IsScript a b edits) :
    changeCount edits + 2 * edits.countP Edit.isCommon = a.length + b.length := by
  have hOld : edits.countP (fun edit => edit.old?.isSome) = a.length := by
    rw [← List.length_filterMap_eq_countP, h.olds, List.length_range]
  have hNew : edits.countP (fun edit => edit.new?.isSome) = b.length := by
    rw [← List.length_filterMap_eq_countP, h.news, List.length_range]
  rw [← hOld, ← hNew, changeCount]
  clear hOld hNew h
  induction edits with
  | nil => rfl
  | cons edit edits ih =>
      have hEdit : (if !edit.isCommon then 1 else 0) + 2 * (if edit.isCommon then 1 else 0) =
          (if edit.old?.isSome then 1 else 0) + (if edit.new?.isSome then 1 else 0) := by
        cases edit <;> rfl
      simp only [List.countP_cons]
      omega

/-- The lines that a script keeps are a common part of both sides. -/
theorem IsScript.countP_isCommon_le (h : IsScript a b edits) {n : Nat} (hLongest : LongestCommon a b n) :
    edits.countP Edit.isCommon ≤ n := by
  let kept := edits.filter Edit.isCommon
  have hSame : kept.filterMap (oldText? a) = kept.filterMap (newText? a b) := by
    apply List.filterMap_congr
    intro edit hMem
    have hCommon := (List.mem_filter.mp hMem).2
    cases edit with
    | common i j => rfl
    | delete i blank => cases hCommon
    | add j blank => cases hCommon
  have hOld : (kept.filterMap (oldText? a)).Sublist a := by
    have hPart := (@List.filter_sublist _ Edit.isCommon edits).filterMap (oldText? a)
    rwa [h.filterMap_oldText?] at hPart
  have hNew : (kept.filterMap (newText? a b)).Sublist b := by
    have hPart := (@List.filter_sublist _ Edit.isCommon edits).filterMap (newText? a b)
    rwa [h.filterMap_newText?] at hPart
  have hLength : (kept.filterMap (oldText? a)).length = edits.countP Edit.isCommon := by
    rw [length_filterMap_oldText?, oldCount, List.length_filterMap_eq_countP, List.countP_filter]
    congr 1
    funext edit
    cases edit <;> rfl
  rw [← hLength]
  exact hLongest.bound _ hOld (hSame ▸ hNew)

/-- An edit script goes through both lists in order, keeps only lines that are equal, and keeps
as many lines as their longest common part has, so that no script has fewer changes. -/
theorem script_minimal (a b : List Text) :
    IsScript a b (script a b) ∧ LongestCommon a b ((script a b).countP Edit.isCommon) ∧
      ∀ other, IsScript a b other → changeCount (script a b) ≤ changeCount other := by
  have hScript := isScript_script a b
  have hLongest := longestCommon_script a b
  refine ⟨hScript, hLongest, fun other hOther => ?_⟩
  have hFewer := hOther.countP_isCommon_le hLongest
  have hCount := hScript.changeCount_eq
  have hOtherCount := hOther.changeCount_eq
  omega

end Script

end TreeShell.Diff
