import Mathlib.Data.List.Basic
import TreeShell.Patch.Apply

/-! The place of a replacement. What is replaced at a place that was found stands there, and
the lines in front of it and behind it are left alone. -/
namespace TreeShell.Patch

/-- Lines stand among others with a number of lines in front of them. -/
def StandsAt (lines expected : List Text) (place : Int) : Prop :=
  ∃ front back, lines = front ++ (expected ++ back) ∧ place = front.length

section Stands

variable {lines expected : List Text} {place : Int}

theorem eq_append_of_take_drop {n : Nat} (h : (lines.drop n).take expected.length = expected) :
    lines = lines.take n ++ (expected ++ lines.drop (n + expected.length)) := by
  conv_lhs => rw [← List.take_append_drop n lines,
    ← List.take_append_drop expected.length (lines.drop n), h, List.drop_drop]

/-- The test at a place decides whether the expected lines stand there. -/
theorem occursAt_iff : occursAt lines place expected = true ↔ StandsAt lines expected place := by
  simp only [occursAt, Bool.and_eq_true, decide_eq_true_eq, beq_iff_eq]
  constructor
  · rintro ⟨⟨hStart, hStop⟩, hSame⟩
    refine ⟨_, _, eq_append_of_take_drop hSame, ?_⟩
    rw [List.length_take_of_le (by omega), Int.toNat_of_nonneg hStart]
  · rintro ⟨front, back, rfl, rfl⟩
    rw [Int.toNat_natCast, List.drop_left, List.take_left, List.length_append, List.length_append]
    exact ⟨by omega, rfl⟩

theorem StandsAt.nonneg (h : StandsAt lines expected place) : 0 ≤ place := by
  obtain ⟨front, back, _, rfl⟩ := h
  exact Int.natCast_nonneg _

theorem StandsAt.add_length_le (h : StandsAt lines expected place) :
    place + expected.length ≤ lines.length := by
  obtain ⟨front, back, rfl, rfl⟩ := h
  simp only [List.length_append]
  omega

end Stands

/-- A place that the search returns has been tested. -/
theorem occursAt_of_searchFrom {lines expected : List Text} {declared place : Int}
    {offset left : Nat} (h : searchFrom lines expected declared offset left = some place) :
    occursAt lines place expected = true := by
  induction left generalizing offset with
  | zero => cases h
  | succ left ih =>
      rw [searchFrom] at h
      split at h
      · cases h
        assumption
      · split at h
        · cases h
          assumption
        · split at h
          · cases h
          · exact ih h

/-- Lines that are only put in go to their declared place, or to the end if that is nearer;
all other places have been looked at. -/
theorem eq_declared_or_occursAt_of_locate? {lines : List Text} {splice : Splice}
    {maxOffset place : Int} (h : locate? lines splice maxOffset = some place) :
    splice.oldLines = [] ∧ place = min splice.oldIndex lines.length ∨
      occursAt lines place splice.oldLines = true := by
  simp only [locate?] at h
  split at h
  · rename_i hEmpty
    exact Or.inl ⟨List.isEmpty_iff.mp hEmpty, (Option.some.inj h).symm⟩
  · split at h
    · cases h
      exact Or.inr (by assumption)
    · exact Or.inr (occursAt_of_searchFrom h)

/-- Where a splice is located, the text is cut into what is in front, the old lines and what is
behind. -/
theorem exists_split_of_locate? {lines : List Text} {splice : Splice} {maxOffset place : Int}
    (h : locate? lines splice maxOffset = some place) :
    ∃ front back, lines = front ++ (splice.oldLines ++ back) ∧ front.length = place.toNat ∧
      replaceAt lines place splice = front ++ (splice.newLines ++ back) := by
  have hFound : (lines.drop place.toNat).take splice.oldLines.length = splice.oldLines ∧
      place.toNat ≤ lines.length := by
    rcases eq_declared_or_occursAt_of_locate? h with ⟨hNone, rfl⟩ | hOccurs
    · rw [hNone]
      exact ⟨rfl, by omega⟩
    · simp only [occursAt, Bool.and_eq_true, decide_eq_true_eq, beq_iff_eq] at hOccurs
      exact ⟨hOccurs.2, by omega⟩
  exact ⟨lines.take place.toNat, lines.drop (place.toNat + splice.oldLines.length),
    eq_append_of_take_drop hFound.1, List.length_take_of_le hFound.2, List.append_assoc ..⟩

/-- No place is negative if none is declared for lines that are only put in. -/
theorem nonneg_of_locate? {lines : List Text} {splice : Splice} {maxOffset place : Int}
    (h : locate? lines splice maxOffset = some place)
    (hInsertion : splice.oldLines = [] → 0 ≤ splice.oldIndex) : 0 ≤ place := by
  rcases eq_declared_or_occursAt_of_locate? h with ⟨hNone, rfl⟩ | hOccurs
  · have hDeclared := hInsertion hNone
    omega
  · exact (occursAt_iff.mp hOccurs).nonneg

/-- A place that is found lies in the lines, unless a negative one is declared for lines that are only
put in. -/
theorem add_length_le_of_locate? {lines : List Text} {splice : Splice} {maxOffset place : Int}
    (h : locate? lines splice maxOffset = some place) :
    place + splice.oldLines.length ≤ lines.length := by
  rcases eq_declared_or_occursAt_of_locate? h with ⟨hNone, rfl⟩ | hOccurs
  · rw [hNone, List.length_nil]
    omega
  · exact (occursAt_iff.mp hOccurs).add_length_le

section Step

variable {maxOffset : Int} {number : Nat} {splice : Splice} {rest : List (Nat × Splice)}
  {lines : List Text}

theorem applySplices_cons_of_none (h : locate? lines splice maxOffset = none) :
    (applySplices maxOffset ((number, splice) :: rest) lines).2 =
      .error (.hunkFailed number (splice.oldIndex + 1)) := by
  rw [applySplices, h]

/-- A splice that is located is made, and the others are applied to what it made. -/
theorem applySplices_cons_of_some {place : Int} (h : locate? lines splice maxOffset = some place) :
    (applySplices maxOffset ((number, splice) :: rest) lines).2 =
      (applySplices maxOffset rest (replaceAt lines place splice)).2 := by
  rw [applySplices, h]
  dsimp only
  split <;> rfl

end Step

/-- The first of some replacements that are made is found somewhere, and the others are made in
the text that it leaves. -/
theorem exists_of_applySplices_cons {maxOffset : Int} {entry : Nat × Splice}
    {rest : List (Nat × Splice)} {lines result warnings : List Text}
    (h : applySplices maxOffset (entry :: rest) lines = (warnings, .ok result)) :
    ∃ place later, locate? lines entry.2 maxOffset = some place ∧
      applySplices maxOffset rest (replaceAt lines place entry.2) = (later, .ok result) := by
  obtain ⟨number, splice⟩ := entry
  have hResult := congrArg Prod.snd h
  cases hPlace : locate? lines splice maxOffset with
  | none =>
      rw [applySplices_cons_of_none hPlace] at hResult
      cases hResult
  | some place =>
      rw [applySplices_cons_of_some hPlace] at hResult
      exact ⟨place, _, rfl, Prod.ext rfl hResult⟩

end TreeShell.Patch
