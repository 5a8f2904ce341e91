import Mathlib.Data.List.Chain
import TreeShell.Proofs.Diff.Longest

/-! The order of the edits in a change. An addition comes last wherever it costs no common line. So a
deletion that comes last has no addition in front of it: the addition would have cost no common line
behind the deletion either, and would have come last instead. The main statement is
`script_deletes_first`. -/
namespace TreeShell.Diff

/-- No deletion stands right behind an addition. -/
def DeletesFirst (edits : List Edit) : Prop :=
  edits.IsChain fun edit next => edit.isAdd = true → next.isDelete = false

theorem isAdd_eq_false_of_isCommon {edit : Edit} (h : edit.isCommon = true) : edit.isAdd = false := by
  cases edit with
  | common => rfl
  | delete => rfl
  | add => cases h

theorem isDelete_eq_false_of_isCommon {edit : Edit} (h : edit.isCommon = true) :
    edit.isDelete = false := by
  cases edit with
  | common => rfl
  | delete => cases h
  | add => rfl

theorem deletesFirst_of_isCommon {edits : List Edit} (h : ∀ edit ∈ edits, edit.isCommon = true) :
    DeletesFirst edits := by
  induction edits with
  | nil => exact .nil
  | cons edit edits ih =>
      refine List.isChain_cons.mpr ⟨fun next hNext _ => ?_, ih fun e he => h e (List.mem_cons_of_mem _ he)⟩
      exact isDelete_eq_false_of_isCommon (h next (List.mem_cons_of_mem _ (List.mem_of_mem_head? hNext)))

/-- Lines that are kept may stand in front of a script. -/
theorem DeletesFirst.kept_append {front back : List Edit} (h : DeletesFirst back)
    (hFront : ∀ edit ∈ front, edit.isCommon = true) : DeletesFirst (front ++ back) := by
  refine List.isChain_append.mpr ⟨deletesFirst_of_isCommon hFront, h, fun edit hLast next _ hAdd => ?_⟩
  have hCommon := hFront edit (List.mem_of_getLast? hLast)
  rw [isAdd_eq_false_of_isCommon hCommon] at hAdd
  cases hAdd

/-- Lines that are kept may stand behind a script. -/
theorem DeletesFirst.append_kept {front back : List Edit} (h : DeletesFirst front)
    (hBack : ∀ edit ∈ back, edit.isCommon = true) : DeletesFirst (front ++ back) := by
  refine List.isChain_append.mpr ⟨h, deletesFirst_of_isCommon hBack, fun _ _ next hHead _ => ?_⟩
  exact isDelete_eq_false_of_isCommon (hBack next (List.mem_of_mem_head? hHead))

theorem DeletesFirst.relocate {edits : List Edit} (h : DeletesFirst edits) (old new : Nat → Nat) :
    DeletesFirst (edits.map (Edit.relocate old new)) := by
  refine (List.isChain_map _).mpr (h.imp fun edit next hOrder => ?_)
  cases edit <;> cases next <;> exact hOrder

/-- A change is divided where its additions begin. -/
theorem DeletesFirst.exists_split {edits : List Edit} (h : DeletesFirst edits)
    (hChange : ∀ edit ∈ edits, edit.isCommon = false) : ∃ deletes adds, edits = deletes ++ adds ∧
      (∀ edit ∈ deletes, edit.isDelete = true) ∧ ∀ edit ∈ adds, edit.isAdd = true := by
  induction edits with
  | nil => exact ⟨[], [], rfl, nofun, nofun⟩
  | cons edit edits ih =>
      obtain ⟨hNext, hRest⟩ := List.isChain_cons.mp h
      obtain ⟨deletes, adds, rfl, hDeletes, hAdds⟩ :=
        ih hRest fun e he => hChange e (List.mem_cons_of_mem _ he)
      cases edit with
      | common => cases hChange _ (List.mem_cons_self ..)
      | delete i blank =>
          exact ⟨.delete i blank :: deletes, adds, rfl, List.forall_mem_cons.mpr ⟨rfl, hDeletes⟩, hAdds⟩
      | add j blank =>
          -- What stands right behind an addition is no deletion, so that no deletion is left.
          cases deletes with
          | nil => exact ⟨[], .add j blank :: adds, rfl, nofun, List.forall_mem_cons.mpr ⟨rfl, hAdds⟩⟩
          | cons next deletes =>
              have hDelete := hDeletes next (List.mem_cons_self ..)
              rw [hNext next rfl rfl] at hDelete
              cases hDelete

section Table

variable {α : Type} [DecidableEq α]

/-- One more old line costs no common line. -/
theorem commons_le_cons (x : α) (xs ys : List α) : (cell xs ys).commons ≤ (cell (x :: xs) ys).commons := by
  obtain ⟨part, hOld, hNew, hLength⟩ := (longestCommon_cell xs ys).attained
  rw [← hLength]
  exact (longestCommon_cell (x :: xs) ys).bound part (hOld.cons x) hNew

/-- An addition that comes last costs no common line. -/
theorem commons_of_isAdd {xs ys : List α} {y : α} {edit : Edit}
    (h : (cell xs (y :: ys)).edits.head? = some edit) (hAdd : edit.isAdd = true) :
    (cell xs (y :: ys)).commons = (cell xs ys).commons := by
  cases xs with
  | nil => cases ys <;> rfl
  | cons x xs =>
      by_cases hSame : x = y
      · subst hSame
        rw [cell_cons_self] at h
        cases h
        cases hAdd
      · rw [cell_cons_of_ne hSame] at h ⊢
        split at h
        · rw [if_pos (by assumption)]
        · cases h
          cases hAdd

/-- Where a deletion comes last, no addition is the last edit without the deleted line. -/
theorem isAdd_eq_false_of_lt {x : α} {xs ys : List α} {y : α}
    (hLess : (cell (x :: xs) ys).commons < (cell xs (y :: ys)).commons) :
    ∀ edit ∈ (cell xs (y :: ys)).edits.head?, edit.isAdd = false := by
  intro edit hLast
  by_contra hAdd
  have hSame := commons_of_isAdd hLast (by simpa using hAdd)
  have hMore := commons_le_cons x xs ys
  omega

theorem isAdd_eq_false_of_nil (xs : List α) : ∀ edit ∈ (cell xs []).edits.head?, edit.isAdd = false := by
  cases xs with
  | nil => exact nofun
  | cons x xs =>
      rw [cell_cons_nil]
      rintro edit ⟨⟩
      rfl

/-- The edits of a cell have the last one first. -/
theorem isChain_cell (xs ys : List α) :
    (cell xs ys).edits.IsChain fun next edit => edit.isAdd = true → next.isDelete = false := by
  induction xs generalizing ys with
  | nil =>
      induction ys with
      | nil => exact .nil
      | cons y ys ih =>
          rw [cell_nil_cons]
          exact List.isChain_cons.mpr ⟨fun _ _ _ => rfl, ih⟩
  | cons x xs ihUp =>
      have hDelete {ys : List α} (hFree : ∀ edit ∈ (cell xs ys).edits.head?, edit.isAdd = false) :
          (Edit.delete xs.length false :: (cell xs ys).edits).IsChain
            fun next edit => edit.isAdd = true → next.isDelete = false := by
        refine List.isChain_cons.mpr ⟨fun edit hMem hAdd => ?_, ihUp ys⟩
        rw [hFree edit hMem] at hAdd
        cases hAdd
      induction ys with
      | nil =>
          rw [cell_cons_nil]
          exact hDelete (isAdd_eq_false_of_nil xs)
      | cons y ys ihLeft =>
          by_cases hSame : x = y
          · subst hSame
            rw [cell_cons_self]
            exact List.isChain_cons.mpr ⟨fun _ _ _ => rfl, ihUp ys⟩
          · rw [cell_cons_of_ne hSame]
            split
            · exact List.isChain_cons.mpr ⟨fun _ _ _ => rfl, ihLeft⟩
            · rename_i hLess
              exact hDelete (isAdd_eq_false_of_lt (Nat.lt_of_not_le hLess))

theorem deletesFirst_tableScript (a b : List α) : DeletesFirst (tableScript a b) :=
  List.isChain_reverse.mpr (isChain_cell a.reverse b.reverse)

theorem isCommon_of_mem_keep {n : Nat} : ∀ edit ∈ keep n, edit.isCommon = true := by
  intro edit hMem
  obtain ⟨k, _, rfl⟩ := List.mem_map.mp hMem
  rfl

/-- In every change of an edit script the deletions come before the additions: no deletion stands right
behind an addition, so that a row of edits that keep no line is a row of deletions with a row of
additions behind it. -/
theorem script_deletes_first (a b : List α) :
    DeletesFirst (script a b) ∧
    ∀ front change back, script a b = front ++ (change ++ back) →
      (∀ edit ∈ change, edit.isCommon = false) → ∃ deletes adds, change = deletes ++ adds ∧
        (∀ edit ∈ deletes, edit.isDelete = true) ∧ ∀ edit ∈ adds, edit.isAdd = true := by
  have hScript : DeletesFirst (script a b) := by
    obtain ⟨front, midA, midB, back, _, _, hScript⟩ := script_eq_append a b
    rw [hScript]
    refine (((deletesFirst_tableScript midA midB).append_kept ?_).relocate _ _).kept_append
      isCommon_of_mem_keep
    intro edit hMem
    obtain ⟨edit, hEdit, rfl⟩ := List.mem_map.mp hMem
    rw [isCommon_relocate]
    exact isCommon_of_mem_keep edit hEdit
  refine ⟨hScript, fun front change back hPart hChange => ?_⟩
  rw [hPart] at hScript
  have hOrder : DeletesFirst change :=
    (List.isChain_append.mp (List.isChain_append.mp hScript).2.1).1
  exact hOrder.exists_split hChange

/-- Both changes of a script with a line kept between them are in order. -/
theorem script_deletes_first_twice :
    DeletesFirst (script ("abcade" : Text) ("axyafge" : Text)) ∧
    script ("abcade" : Text) ("axyafge" : Text) =
      [.common 0 0, .delete 1 false, .delete 2 false, .add 1 false, .add 2 false, .common 3 3] ++
        ([.delete 4 false, .add 4 false, .add 5 false] ++ [.common 5 6]) ∧
    ∃ deletes adds, [Edit.delete 4 false, .add 4 false, .add 5 false] = deletes ++ adds ∧
      (∀ edit ∈ deletes, edit.isDelete = true) ∧ ∀ edit ∈ adds, edit.isAdd = true := by
  obtain ⟨hOrder, hChanges⟩ := script_deletes_first ("abcade" : Text) ("axyafge" : Text)
  have hScript : script ("abcade" : Text) ("axyafge" : Text) =
      [.common 0 0, .delete 1 false, .delete 2 false, .add 1 false, .add 2 false, .common 3 3] ++
        ([.delete 4 false, .add 4 false, .add 5 false] ++ [.common 5 6]) := by decide
  exact ⟨hOrder, hScript, hChanges _ _ _ hScript (by decide)⟩

end Table

end TreeShell.Diff
