import Mathlib.Data.List.Basic
import TreeShell.Diff.EditScript

/-! What an edit script says about the two lists that it was made from. The places that it
names on each side are all places of that side in order, and a line that stays is the same
line on both sides. No statement here depends on how few edits the script has. -/
namespace TreeShell.Diff

/-- The edits go through `m` old and `n` new places, each side in order and without a gap. -/
structure Covers (m n : Nat) (edits : List Edit) : Prop where
  olds : edits.filterMap Edit.old? = List.range m
  news : edits.filterMap Edit.new? = List.range n

theorem Covers.old_lt {m n : Nat} {edits : List Edit} (h : Covers m n edits) {edit : Edit}
    (hMem : edit ∈ edits) {i : Nat} (hPlace : edit.old? = some i) : i < m := by
  have hOld : i ∈ edits.filterMap Edit.old? := List.mem_filterMap.mpr ⟨edit, hMem, hPlace⟩
  rwa [h.olds, List.mem_range] at hOld

theorem Covers.new_lt {m n : Nat} {edits : List Edit} (h : Covers m n edits) {edit : Edit}
    (hMem : edit ∈ edits) {j : Nat} (hPlace : edit.new? = some j) : j < n := by
  have hNew : j ∈ edits.filterMap Edit.new? := List.mem_filterMap.mpr ⟨edit, hMem, hPlace⟩
  rwa [h.news, List.mem_range] at hNew

/-- A script from `a` to `b`: it covers both, and what it leaves alone is equal. -/
structure IsScript {α : Type} (a b : List α) (edits : List Edit) : Prop
    extends Covers a.length b.length edits where
  common : ∀ i j, Edit.common i j ∈ edits → a[i]? = b[j]?

section Table

variable {α : Type}

/-- What a cell of the table knows about the lists that it was computed for, which are
given from their ends. Its edits have the last one first. -/
structure Cell.Fits (xs ys : List α) (cell : Cell) : Prop where
  olds : cell.edits.filterMap Edit.old? = (List.range xs.length).reverse
  news : cell.edits.filterMap Edit.new? = (List.range ys.length).reverse
  common : ∀ i j, Edit.common i j ∈ cell.edits → xs.reverse[i]? = ys.reverse[j]?
  plain : ∀ edit ∈ cell.edits, edit.isBlank = false

theorem Cell.Fits.old_lt {xs ys : List α} {cell : Cell} (h : cell.Fits xs ys) {i j : Nat}
    (hMem : Edit.common i j ∈ cell.edits) : i < xs.length := by
  have hOld : i ∈ cell.edits.filterMap Edit.old? := List.mem_filterMap.mpr ⟨_, hMem, rfl⟩
  rw [h.olds] at hOld
  simpa using hOld

theorem Cell.Fits.new_lt {xs ys : List α} {cell : Cell} (h : cell.Fits xs ys) {i j : Nat}
    (hMem : Edit.common i j ∈ cell.edits) : j < ys.length := by
  have hNew : j ∈ cell.edits.filterMap Edit.new? := List.mem_filterMap.mpr ⟨_, hMem, rfl⟩
  rw [h.news] at hNew
  simpa using hNew

theorem Cell.Fits.add {xs ys : List α} {cell : Cell} (h : cell.Fits xs ys) (y : α)
    (commons : Nat) : Cell.Fits xs (y :: ys) ⟨commons, .add ys.length false :: cell.edits⟩ where
  olds := h.olds
  news := by simp [Edit.new?, h.news, List.range_succ]
  common := by
    intro i j hMem
    have hMem : Edit.common i j ∈ cell.edits := by simpa using hMem
    rw [h.common i j hMem, List.reverse_cons, List.getElem?_append_left]
    simpa using h.new_lt hMem
  plain := by simpa [Edit.isBlank] using h.plain

theorem Cell.Fits.delete {xs ys : List α} {cell : Cell} (h : cell.Fits xs ys) (x : α)
    (commons : Nat) : Cell.Fits (x :: xs) ys ⟨commons, .delete xs.length false :: cell.edits⟩ where
  olds := by simp [Edit.old?, h.olds, List.range_succ]
  news := h.news
  common := by
    intro i j hMem
    have hMem : Edit.common i j ∈ cell.edits := by simpa using hMem
    rw [← h.common i j hMem, List.reverse_cons, List.getElem?_append_left]
    simpa using h.old_lt hMem
  plain := by simpa [Edit.isBlank] using h.plain

/-- A common line in front makes the script of a cell longer by one. -/
theorem Cell.Fits.keep {xs ys : List α} {cell : Cell} (h : cell.Fits xs ys) (x : α)
    (commons : Nat) :
    Cell.Fits (x :: xs) (x :: ys) ⟨commons, .common xs.length ys.length :: cell.edits⟩ where
  olds := by simp [Edit.old?, h.olds, List.range_succ]
  news := by simp [Edit.new?, h.news, List.range_succ]
  common := by
    intro i j hMem
    rcases List.mem_cons.mp hMem with hLast | hMem
    · cases hLast
      simp
    · rw [List.reverse_cons, List.reverse_cons, List.getElem?_append_left,
        List.getElem?_append_left, h.common i j hMem]
      · simpa using h.new_lt hMem
      · simpa using h.old_lt hMem
  plain := by simpa [Edit.isBlank] using h.plain

/-- A row of the table: one cell for every remainder of the new list. -/
def RowFits (xs : List α) : List α → List Cell → Prop
  | [], [cell] => cell.Fits xs []
  | y :: ys, cell :: row => cell.Fits xs (y :: ys) ∧ RowFits xs ys row
  | _, _ => False

theorem RowFits.top {xs ys : List α} {row : List Cell} (h : RowFits xs ys row) :
    (top row).Fits xs ys := by
  match ys, row, h with
  | [], [_], h => exact h
  | _ :: _, _ :: _, h => exact h.1

theorem RowFits.tail {xs ys : List α} {y : α} {row : List Cell} (h : RowFits xs (y :: ys) row) :
    RowFits xs ys row.tail := by
  match row, h with
  | _ :: _, h => exact h.2

theorem rowFits_firstRow (ys : List α) : RowFits [] ys (firstRow ys) := by
  induction ys with
  | nil => exact ⟨rfl, rfl, by simp, by simp⟩
  | cons y ys ih => exact ⟨ih.top.add y 0, ih⟩

variable [DecidableEq α]

/-- A row of the table fits if the row before it does. -/
theorem rowFits_nextRow {xs : List α} (x : α) {ys : List α} {above : List Cell}
    (h : RowFits xs ys above) : RowFits (x :: xs) ys (nextRow x xs.length ys above) := by
  induction ys generalizing above with
  | nil => exact h.top.delete x 0
  | cons y ys ih =>
      have hRow := ih h.tail
      refine ⟨?_, hRow⟩
      by_cases hSame : x = y
      · subst hSame
        rw [if_pos rfl]
        exact h.tail.top.keep x _
      · rw [if_neg hSame]
        split
        · exact hRow.top.add y _
        · exact h.top.delete x _

theorem rowFits_rowFor (xs ys : List α) : RowFits xs ys (rowFor xs ys) := by
  induction xs with
  | nil => exact rowFits_firstRow ys
  | cons x xs ih => exact rowFits_nextRow x ih

theorem sharedLength_le_left (xs ys : List α) : sharedLength xs ys ≤ xs.length := by
  fun_induction sharedLength xs ys with
  | case1 x xs ys ih => simpa using ih
  | case2 | case3 => exact Nat.zero_le _

theorem take_sharedLength (xs ys : List α) :
    xs.take (sharedLength xs ys) = ys.take (sharedLength xs ys) := by
  fun_induction sharedLength xs ys with
  | case1 x xs ys ih => simp [ih]
  | case2 | case3 => simp

theorem old?_relocate (old new : Nat → Nat) (edit : Edit) :
    (edit.relocate old new).old? = edit.old?.map old := by
  cases edit <;> rfl

theorem new?_relocate (old new : Nat → Nat) (edit : Edit) :
    (edit.relocate old new).new? = edit.new?.map new := by
  cases edit <;> rfl

theorem isBlank_relocate (old new : Nat → Nat) (edit : Edit) :
    (edit.relocate old new).isBlank = edit.isBlank := by
  cases edit <;> rfl

def keep (n : Nat) : List Edit := (List.range n).map fun k => .common k k

/-- The script that the table gives for two lists, nothing being matched beforehand. -/
def tableScript (a b : List α) : List Edit := (top (rowFor a.reverse b.reverse)).edits.reverse

omit [DecidableEq α] in
theorem isScript_keep (a : List α) : IsScript a a (keep a.length) where
  olds := by simp [keep, List.filterMap_map, Function.comp_def, Edit.old?]
  news := by simp [keep, List.filterMap_map, Function.comp_def, Edit.new?]
  common := by
    intro i j hMem
    simp only [keep, List.mem_map, Edit.common.injEq] at hMem
    obtain ⟨k, _, rfl, rfl⟩ := hMem
    rfl

/-- The table gives a script for the two lists, by induction on its rows. -/
theorem isScript_tableScript (a b : List α) : IsScript a b (tableScript a b) := by
  have hTop := (rowFits_rowFor a.reverse b.reverse).top
  refine ⟨⟨?_, ?_⟩, ?_⟩
  · simp [tableScript, List.filterMap_reverse, hTop.olds]
  · simp [tableScript, List.filterMap_reverse, hTop.news]
  · intro i j hMem
    simpa using hTop.common i j (List.mem_reverse.mp hMem)

omit [DecidableEq α] in
/-- A script for the beginnings and one for the remainders give one for the whole. -/
theorem IsScript.append {a₁ a₂ b₁ b₂ : List α} {first second : List Edit}
    (h₁ : IsScript a₁ b₁ first) (h₂ : IsScript a₂ b₂ second) :
    IsScript (a₁ ++ a₂) (b₁ ++ b₂)
      (first ++ second.map (Edit.relocate (a₁.length + ·) (b₁.length + ·))) where
  olds := by
    rw [List.filterMap_append, List.filterMap_map, h₁.olds, List.length_append, List.range_add,
      ← h₂.olds, List.map_filterMap]
    simp only [Function.comp_def, old?_relocate]
  news := by
    rw [List.filterMap_append, List.filterMap_map, h₁.news, List.length_append, List.range_add,
      ← h₂.news, List.map_filterMap]
    simp only [Function.comp_def, new?_relocate]
  common := by
    intro i j hMem
    rcases List.mem_append.mp hMem with hMem | hMem
    · rw [List.getElem?_append_left (h₁.old_lt hMem rfl),
        List.getElem?_append_left (h₁.new_lt hMem rfl)]
      exact h₁.common i j hMem
    · obtain ⟨edit, hEdit, hSame⟩ := List.mem_map.mp hMem
      cases edit with
      | common k l =>
          cases hSame
          rw [List.getElem?_append_right (Nat.le_add_right ..),
            List.getElem?_append_right (Nat.le_add_right ..)]
          simpa using h₂.common k l hEdit
      | delete k blank => cases hSame
      | add l blank => cases hSame

/-- A script keeps what the lists begin and end with in common and goes through the table
for what stands between. -/
theorem script_eq_append (a b : List α) : ∃ front midA midB back,
    a = front ++ (midA ++ back) ∧ b = front ++ (midB ++ back) ∧
    script a b = keep front.length ++
      (tableScript midA midB ++
        (keep back.length).map (Edit.relocate (midA.length + ·) (midB.length + ·))).map
          (Edit.relocate (front.length + ·) (front.length + ·)) := by
  let lead := sharedLength a b
  let backA := (a.drop lead).reverse
  let backB := (b.drop lead).reverse
  let trail := sharedLength backA backB
  have hSplitA : a = a.take lead ++ ((backA.drop trail).reverse ++ (backA.take trail).reverse) := by
    rw [← List.reverse_append, List.take_append_drop, List.reverse_reverse, List.take_append_drop]
  have hSplitB : b = a.take lead ++ ((backB.drop trail).reverse ++ (backA.take trail).reverse) := by
    rw [take_sharedLength a b, take_sharedLength backA backB, ← List.reverse_append,
      List.take_append_drop, List.reverse_reverse, List.take_append_drop]
  have hFront : (a.take lead).length = lead :=
    List.length_take_of_le (sharedLength_le_left a b)
  have hBack : (backA.take trail).reverse.length = trail := by
    rw [List.length_reverse, List.length_take_of_le (sharedLength_le_left backA backB)]
  have hPlaceA : a.length - trail = lead + (backA.drop trail).reverse.length := by
    have hLength := congrArg List.length hSplitA
    rw [List.length_append, List.length_append, hFront, hBack] at hLength
    omega
  have hPlaceB : b.length - trail = lead + (backB.drop trail).reverse.length := by
    have hLength := congrArg List.length hSplitB
    rw [List.length_append, List.length_append, hFront, hBack] at hLength
    omega
  refine ⟨_, _, _, _, hSplitA, hSplitB, ?_⟩
  rw [hFront, hBack]
  change (List.range lead).map (fun k => Edit.common k k) ++
    (top (rowFor (backA.drop trail) (backB.drop trail))).edits.reverse.map
      (Edit.relocate (lead + ·) (lead + ·)) ++
    (List.range trail).map (fun k =>
      Edit.common (a.length - trail + k) (b.length - trail + k)) = _
  rw [hPlaceA, hPlaceB]
  simp only [keep, tableScript, List.map_append, List.map_map, List.append_assoc,
    List.reverse_reverse, Function.comp_def, Edit.relocate, Nat.add_assoc]

theorem isScript_script (a b : List α) : IsScript a b (script a b) := by
  obtain ⟨front, midA, midB, back, hA, hB, hScript⟩ := script_eq_append a b
  rw [hScript, hA, hB]
  exact (isScript_keep front).append ((isScript_tableScript midA midB).append (isScript_keep back))

/-- A script that compares all lines marks none of its edits. -/
theorem isBlank_script (a b : List α) : ∀ edit ∈ script a b, edit.isBlank = false := by
  obtain ⟨front, midA, midB, back, _, _, hScript⟩ := script_eq_append a b
  have hKeep (n : Nat) : ∀ edit ∈ keep n, edit.isBlank = false := by
    intro edit hMem
    obtain ⟨k, _, rfl⟩ := List.mem_map.mp hMem
    rfl
  have hTop := (rowFits_rowFor midA.reverse midB.reverse).top.plain
  intro edit hMem
  rw [hScript, List.map_append, List.map_map] at hMem
  rcases List.mem_append.mp hMem with hMem | hMem
  · exact hKeep _ edit hMem
  · rcases List.mem_append.mp hMem with hMem | hMem
    · obtain ⟨edit, hEdit, rfl⟩ := List.mem_map.mp hMem
      rw [isBlank_relocate]
      exact hTop edit (List.mem_reverse.mp hEdit)
    · obtain ⟨edit, hEdit, rfl⟩ := List.mem_map.mp hMem
      rw [Function.comp_apply, isBlank_relocate, isBlank_relocate]
      exact hKeep _ edit hEdit

omit [DecidableEq α] in
theorem map_getElem?_range (a : List α) : (List.range a.length).map (a[·]?) = a.map some := by
  apply List.ext_getElem?
  intro i
  by_cases h : i < a.length
  · simp [h]
  · simp [h]

omit [DecidableEq α] in
theorem map_getD_range (a : List α) (other : α) :
    (List.range a.length).map (a.getD · other) = a := by
  have h := congrArg (List.map (Option.getD · other)) (map_getElem?_range a)
  rw [List.map_map, List.map_map] at h
  simpa [Function.comp_def] using h

omit [DecidableEq α] in
/-- A script without a change is one between equal lists. -/
theorem IsScript.eq_of_isIdentity {a b : List α} {edits : List Edit} (h : IsScript a b edits)
    (hSame : isIdentity edits = true) : a = b := by
  have hViews : (edits.filterMap Edit.old?).map (a[·]?) = (edits.filterMap Edit.new?).map (b[·]?) := by
    rw [List.map_filterMap, List.map_filterMap]
    apply List.filterMap_congr
    intro edit hMem
    have hCommon : edit.isCommon = true := List.all_eq_true.mp hSame edit hMem
    cases edit with
    | common i j => exact congrArg some (h.common i j hMem)
    | delete i blank => cases hCommon
    | add j blank => cases hCommon
  rw [h.olds, h.news, map_getElem?_range, map_getElem?_range] at hViews
  exact (List.map_inj_right fun _ _ hEq => Option.some.inj hEq).mp hViews

end Table

end TreeShell.Diff
