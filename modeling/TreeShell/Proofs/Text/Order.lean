import TreeShell.Text

/-! The order of texts. Comparison by code points is a linear order, so that sorting by it gives
increasing lists, and strictly increasing ones when nothing occurs twice. -/
namespace TreeShell.Text

section Cons

variable {a b : CodePoint} {s t : Text}

theorem compare_cons_self (c : CodePoint) (s t : Text) : compare (c :: s) (c :: t) = compare s t := by
  simp [compare]

theorem compare_cons_of_lt (h : a.toNat < b.toNat) : compare (a :: s) (b :: t) = .lt := by
  rw [compare, if_pos h]

theorem compare_cons_of_gt (h : b.toNat < a.toNat) : compare (a :: s) (b :: t) = .gt := by
  rw [compare, if_neg (Nat.lt_asymm h), if_pos h]

end Cons

theorem compare_self (t : Text) : compare t t = .eq := by
  induction t with
  | nil => rfl
  | cons c t ih => rw [compare_cons_self, ih]

/-- Only equal texts compare as equal. -/
theorem eq_of_compare {s t : Text} (h : compare s t = .eq) : s = t := by
  induction s generalizing t with
  | nil =>
      cases t with
      | nil => rfl
      | cons b t => cases h
  | cons a s ih =>
      cases t with
      | nil => cases h
      | cons b t =>
          rcases CodePoint.toNat_trichotomy a b with hLess | rfl | hMore
          · rw [compare_cons_of_lt hLess] at h
            cases h
          · rw [compare_cons_self] at h
            rw [ih h]
          · rw [compare_cons_of_gt hMore] at h
            cases h

theorem compare_swap (s t : Text) : compare t s = (compare s t).swap := by
  induction s generalizing t with
  | nil => cases t <;> rfl
  | cons a s ih =>
      cases t with
      | nil => rfl
      | cons b t =>
          rcases CodePoint.toNat_trichotomy a b with hLess | rfl | hMore
          · rw [compare_cons_of_lt hLess, compare_cons_of_gt hLess]
            rfl
          · rw [compare_cons_self, compare_cons_self, ih]
          · rw [compare_cons_of_gt hMore, compare_cons_of_lt hMore]
            rfl

/-- The order of texts is transitive, by cases on which of the three has ended. -/
theorem compare_lt_trans {r s t : Text} (hrs : compare r s = .lt) (hst : compare s t = .lt) :
    compare r t = .lt := by
  induction s generalizing r t with
  | nil => cases r <;> cases hrs
  | cons b s ih =>
      cases t with
      | nil => cases hst
      | cons c t =>
          cases r with
          | nil => rfl
          | cons a r =>
              rcases CodePoint.toNat_trichotomy a b with hab | rfl | hba
              · rcases CodePoint.toNat_trichotomy b c with hbc | rfl | hcb
                · exact compare_cons_of_lt (Nat.lt_trans hab hbc)
                · exact compare_cons_of_lt hab
                · rw [compare_cons_of_gt hcb] at hst
                  cases hst
              · rcases CodePoint.toNat_trichotomy a c with hac | rfl | hca
                · exact compare_cons_of_lt hac
                · rw [compare_cons_self] at hrs hst ⊢
                  exact ih hrs hst
                · rw [compare_cons_of_gt hca] at hst
                  cases hst
              · rw [compare_cons_of_gt hba] at hrs
                cases hrs

/-- The order on texts is equality or being smaller, so it is total and antisymmetric. -/
theorem le_iff {s t : Text} : le s t = true ↔ s = t ∨ compare s t = .lt := by
  rw [le]
  cases hOrder : compare s t with
  | lt => simp
  | eq => simp [eq_of_compare hOrder]
  | gt =>
      refine iff_of_false nofun ?_
      rintro (rfl | hLess)
      · rw [compare_self] at hOrder
        cases hOrder
      · cases hLess

theorem le_trans {r s t : Text} (hrs : le r s = true) (hst : le s t = true) : le r t = true := by
  rcases le_iff.mp hrs with rfl | hrs
  · exact hst
  · rcases le_iff.mp hst with rfl | hst
    · exact le_iff.mpr (Or.inr hrs)
    · exact le_iff.mpr (Or.inr (compare_lt_trans hrs hst))

theorem le_antisymm {s t : Text} (hst : le s t = true) (hts : le t s = true) : s = t := by
  rcases le_iff.mp hst with rfl | hLess
  · rfl
  · rcases le_iff.mp hts with rfl | hMore
    · rfl
    · have hCycle := compare_lt_trans hLess hMore
      rw [compare_self] at hCycle
      cases hCycle

/-- Nothing but the empty text is at most as large as it. -/
theorem eq_nil_of_le {t : Text} (h : le t [] = true) : t = [] :=
  le_antisymm h (by cases t <;> rfl)

theorem le_total (s t : Text) : (le s t || le t s) = true := by
  rw [le, le, compare_swap s t]
  cases compare s t <;> rfl

theorem pairwise_le_mergeSort (texts : List Text) :
    (texts.mergeSort le).Pairwise fun s t => le s t = true := by
  have hTrans (r s t : Text) : le r s = true → le s t = true → le r t = true := le_trans
  exact List.pairwise_mergeSort hTrans le_total texts

/-- Different texts are sorted into a strictly increasing list. -/
theorem pairwise_lt_mergeSort {texts : List Text} (h : texts.Nodup) :
    (texts.mergeSort le).Pairwise fun s t => compare s t = .lt := by
  have hNodup : (texts.mergeSort le).Nodup := (List.mergeSort_perm texts le).nodup_iff.mpr h
  refine ((pairwise_le_mergeSort texts).and hNodup).imp fun hBoth => ?_
  exact (le_iff.mp hBoth.1).resolve_left hBoth.2

end TreeShell.Text
