import TreeShell.Proofs.Patch.Simultaneous

/-! The search for the place of a replacement. It goes through the places at a growing distance from the
declared one, the place in front before the place behind, and stops where both have left the lines. What
it finds is the nearest place where the old lines stand, and it finds none only if there is none within
the distance that is allowed. Since such a place lies in the lines, so does all that a patch replaces.
The main statement is `locate?_nearest`. -/
namespace TreeShell.Patch

/-- How far a place is from the declared one. -/
def distance (declared place : Int) : Nat := (place - declared).natAbs

/-- The nearest place where lines stand, and of two that are as near the one in front. -/
structure Nearest (lines expected : List Text) (declared place : Int) : Prop where
  stands : StandsAt lines expected place
  least : ∀ other, StandsAt lines expected other → distance declared place ≤ distance declared other
  inFront : ∀ other, StandsAt lines expected other → other ≠ place →
    distance declared other = distance declared place → place < declared

/-- There is one nearest place, since a tie goes to the one in front. -/
theorem Nearest.unique {lines expected : List Text} {declared place other : Int}
    (h : Nearest lines expected declared place) (hOther : Nearest lines expected declared other) :
    place = other := by
  by_contra hDiffer
  have hSame : distance declared other = distance declared place :=
    Nat.le_antisymm (hOther.least place h.stands) (h.least other hOther.stands)
  have hPlace := h.inFront other hOther.stands (Ne.symm hDiffer) hSame
  have hFront := hOther.inFront place h.stands hDiffer hSame.symm
  simp only [distance] at hSame
  omega

section Search

variable {lines expected : List Text} {declared : Int} {offset : Nat}

/-- At one distance the place in front is tried first, so it is the nearest when no smaller distance
has a match. -/
theorem nearest_inFront (hStands : StandsAt lines expected (declared - offset))
    (hBefore : ∀ other, StandsAt lines expected other → offset ≤ distance declared other) :
    Nearest lines expected declared (declared - offset) where
  stands := hStands
  least other hOther := by
    have hFar := hBefore other hOther
    simp only [distance] at hFar ⊢
    omega
  inFront other _ hDiffer hSame := by
    simp only [distance] at hSame
    omega

/-- The place behind is taken only where the one in front at the same distance does not match. -/
theorem nearest_behind (hStands : StandsAt lines expected (declared + offset))
    (hNotInFront : ¬ StandsAt lines expected (declared - offset))
    (hBefore : ∀ other, StandsAt lines expected other → offset ≤ distance declared other) :
    Nearest lines expected declared (declared + offset) where
  stands := hStands
  least other hOther := by
    have hFar := hBefore other hOther
    simp only [distance] at hFar ⊢
    omega
  inFront other hOther hDiffer hSame := by
    have hInFront : other = declared - offset := by
      simp only [distance] at hSame
      omega
    exact absurd (hInFront ▸ hOther) hNotInFront

/-- Two places are at a distance; if lines stand at neither of them, they stand farther away. -/
theorem farther_of_neither (hNotInFront : ¬ StandsAt lines expected (declared - offset))
    (hNotBehind : ¬ StandsAt lines expected (declared + offset))
    (hBefore : ∀ other, StandsAt lines expected other → offset ≤ distance declared other) :
    ∀ other, StandsAt lines expected other → offset + 1 ≤ distance declared other := by
  intro other hOther
  have hFar := hBefore other hOther
  by_contra hNear
  have hPlace : other = declared - offset ∨ other = declared + offset := by
    simp only [distance] at hFar hNear
    omega
  rcases hPlace with rfl | rfl
  · exact hNotInFront hOther
  · exact hNotBehind hOther

/-- Where both directions have left the lines, nothing stands farther away. -/
theorem not_standsAt_of_outside (hFirst : declared - offset < 0) (hLast : lines.length < declared + offset)
    (hBefore : ∀ other, StandsAt lines expected other → offset ≤ distance declared other) (other : Int) :
    ¬ StandsAt lines expected other := by
  intro hOther
  have hFar := hBefore other hOther
  have hStart := hOther.nonneg
  have hStop := hOther.add_length_le
  simp only [distance] at hFar
  omega

/-- The search has come to a distance when no place is nearer. It finds the nearest place, or there is
none at the distances that it has left to try. -/
theorem searchFrom_nearest {left : Nat}
    (hBefore : ∀ other, StandsAt lines expected other → offset ≤ distance declared other) :
    match searchFrom lines expected declared offset left with
    | some place => Nearest lines expected declared place ∧ distance declared place < offset + left
    | none => ∀ other, StandsAt lines expected other → offset + left ≤ distance declared other := by
  induction left generalizing offset with
  | zero => exact hBefore
  | succ left ih =>
      rw [searchFrom]
      simp only [Bool.and_eq_true, decide_eq_true_eq]
      by_cases hInFront : StandsAt lines expected (declared - offset)
      · rw [if_pos (occursAt_iff.mpr hInFront)]
        refine ⟨nearest_inFront hInFront hBefore, ?_⟩
        simp only [distance]
        omega
      · rw [if_neg (occursAt_iff.not.mpr hInFront)]
        by_cases hBehind : StandsAt lines expected (declared + offset)
        · rw [if_pos (occursAt_iff.mpr hBehind)]
          refine ⟨nearest_behind hBehind hInFront hBefore, ?_⟩
          simp only [distance]
          omega
        · rw [if_neg (occursAt_iff.not.mpr hBehind)]
          by_cases hOutside : declared - offset < 0 ∧ lines.length < declared + offset
          · rw [if_pos hOutside]
            exact fun other hOther =>
              absurd hOther (not_standsAt_of_outside hOutside.1 hOutside.2 hBefore other)
          · have hLater := ih (farther_of_neither hInFront hBehind hBefore)
            rw [Nat.add_right_comm] at hLater
            rw [if_neg hOutside]
            exact hLater

end Search

/-- The place that a replacement is declared at, or the end of the lines where that is in front of it. -/
def declaredPlace (lines : List Text) (splice : Splice) : Int := min splice.oldIndex lines.length

section Locate

variable {lines : List Text} {splice : Splice} {maxOffset : Int}

/-- The declared place is the one at no distance, where the search could begin as well. -/
theorem locate?_eq_searchFrom (h : splice.oldLines ≠ []) (maxOffset : Int) :
    locate? lines splice maxOffset =
      searchFrom lines splice.oldLines (declaredPlace lines splice) 0 (maxOffset.toNat + 1) := by
  have hInside : ¬ (lines.length : Int) < declaredPlace lines splice := by
    rw [declaredPlace]
    omega
  change (if splice.oldLines.isEmpty = true then some (declaredPlace lines splice)
    else if occursAt lines (declaredPlace lines splice) splice.oldLines = true then
      some (declaredPlace lines splice)
    else searchFrom lines splice.oldLines (declaredPlace lines splice) 1 maxOffset.toNat) = _
  rw [searchFrom, List.isEmpty_eq_false_iff.mpr h]
  by_cases hHere : occursAt lines (declaredPlace lines splice) splice.oldLines = true
  · simp [hHere]
  · simp [hHere, hInside]

theorem locate?_of_nil (h : splice.oldLines = []) (maxOffset : Int) :
    locate? lines splice maxOffset = some (declaredPlace lines splice) := by
  rw [locate?, h]
  rfl

/-- The search goes through growing distances, and what it returns is the first match on this way.
-/
theorem nearest_locate? (h : splice.oldLines ≠ []) (hOffset : 0 ≤ maxOffset) :
    match locate? lines splice maxOffset with
    | some place => Nearest lines splice.oldLines (declaredPlace lines splice) place ∧
        distance (declaredPlace lines splice) place ≤ maxOffset
    | none => ∀ place, StandsAt lines splice.oldLines place →
        maxOffset < distance (declaredPlace lines splice) place := by
  have hSearch := @searchFrom_nearest lines splice.oldLines (declaredPlace lines splice) 0
    (maxOffset.toNat + 1) fun _ _ => Nat.zero_le _
  rw [← locate?_eq_searchFrom h] at hSearch
  split at hSearch
  · exact ⟨hSearch.1, by omega⟩
  · intro place hStands
    have hFar := hSearch place hStands
    omega

/-- A place is located exactly if it is the nearest one and within the distance that is allowed. -/
theorem locate?_eq_some_iff (h : splice.oldLines ≠ []) (hOffset : 0 ≤ maxOffset) (place : Int) :
    locate? lines splice maxOffset = some place ↔
      Nearest lines splice.oldLines (declaredPlace lines splice) place ∧
        distance (declaredPlace lines splice) place ≤ maxOffset := by
  have hLocate := @nearest_locate? lines splice maxOffset h hOffset
  constructor
  · intro hFound
    rwa [hFound] at hLocate
  · rintro ⟨hPlace, hNear⟩
    split at hLocate
    · rename_i found hFound
      rw [hFound, hLocate.1.unique hPlace]
    · have hFar := hLocate place hPlace.stands
      omega

/-- Nothing is located exactly if every match is too far away. -/
theorem locate?_eq_none_iff (h : splice.oldLines ≠ []) (hOffset : 0 ≤ maxOffset) :
    locate? lines splice maxOffset = none ↔ ∀ place, StandsAt lines splice.oldLines place →
      maxOffset < distance (declaredPlace lines splice) place := by
  have hLocate := @nearest_locate? lines splice maxOffset h hOffset
  constructor
  · intro hNone
    rwa [hNone] at hLocate
  · intro hFar
    split at hLocate
    · rename_i found _
      have hNear := hFar found hLocate.1.stands
      omega
    · assumption

end Locate

/-- Replacements made one after the other, each of lines that are there, up to the first that is not
found. -/
inductive MadeInRange (maxOffset : Int) :
    List (Nat × Splice) → List Text → Except Fault (List Text) → Prop where
  | done (lines : List Text) : MadeInRange maxOffset [] lines (.ok lines)
  | failed {number : Nat} {splice : Splice} {rest : List (Nat × Splice)} {lines : List Text}
      (missing : locate? lines splice maxOffset = none) :
      MadeInRange maxOffset ((number, splice) :: rest) lines
        (.error (.hunkFailed number (splice.oldIndex + 1)))
  | next {number place : Nat} {splice : Splice} {rest : List (Nat × Splice)} {lines : List Text}
      {outcome : Except Fault (List Text)}
      (found : locate? lines splice maxOffset = some (place : Int))
      (inside : place + splice.oldLines.length ≤ lines.length)
      (later : MadeInRange maxOffset rest (replaceAt lines place splice) outcome) :
      MadeInRange maxOffset ((number, splice) :: rest) lines outcome

/-- Every splice of a run was made at the nearest match within the allowed distance, or the run
ended at one without a match. -/
theorem madeInRange_applySplices {maxOffset : Int} {splices : List (Nat × Splice)}
    (hInsertion : ∀ entry ∈ splices, entry.2.oldLines = [] → 0 ≤ entry.2.oldIndex) (lines : List Text) :
    MadeInRange maxOffset splices lines (applySplices maxOffset splices lines).2 := by
  induction splices generalizing lines with
  | nil => exact .done lines
  | cons entry rest ih =>
      obtain ⟨number, splice⟩ := entry
      cases hPlace : locate? lines splice maxOffset with
      | none =>
          rw [applySplices_cons_of_none hPlace]
          exact .failed hPlace
      | some place =>
          obtain ⟨place, rfl⟩ := Int.eq_ofNat_of_zero_le
            (nonneg_of_locate? hPlace (hInsertion (number, splice) (List.mem_cons_self ..)))
          have hInside := add_length_le_of_locate? hPlace
          rw [applySplices_cons_of_some hPlace]
          exact .next hPlace (by omega) (ih (fun other hOther =>
            hInsertion other (List.mem_cons_of_mem _ hOther)) _)

/-- A replacement of lines is made at the nearest place where they stand within the distance that is
allowed, of two that are as near at the one in front, and it fails only if they stand at none. Lines that
are only put in go to their declared place. So whatever is declared, a patch replaces lines that are
there. -/
theorem locate?_nearest (lines : List Text) (splice : Splice) (maxOffset : Int) :
    (splice.oldLines ≠ [] → 0 ≤ maxOffset →
      (∀ place, locate? lines splice maxOffset = some place ↔
        Nearest lines splice.oldLines (declaredPlace lines splice) place ∧
          distance (declaredPlace lines splice) place ≤ maxOffset) ∧
      (locate? lines splice maxOffset = none ↔ ∀ place, StandsAt lines splice.oldLines place →
        maxOffset < distance (declaredPlace lines splice) place)) ∧
    (splice.oldLines = [] → locate? lines splice maxOffset = some (declaredPlace lines splice)) ∧
    ∀ hunks reverse, MadeInRange maxOffset (orderedSplices hunks reverse) lines
      (apply lines hunks reverse maxOffset).2 :=
  ⟨fun hOld hOffset => ⟨locate?_eq_some_iff hOld hOffset, locate?_eq_none_iff hOld hOffset⟩,
    fun hNone => locate?_of_nil hNone maxOffset,
    fun _ _ => madeInRange_applySplices nonneg_of_mem_orderedSplices lines⟩

/-- Of two places that are as near the one in front is taken, what stands nowhere is not found, and lines
that are only put in go to the end. A hunk that declares its lines in front of the first one replaces the
first one. -/
theorem locate?_nearest_tie :
    let lines : List Text := [[chr 'a'], [chr 'x'], [chr 'a']]
    Nearest lines [[chr 'a']] 1 0 ∧
    (∀ place, StandsAt lines [[chr 'b']] place → 5 < (distance 1 place : Int)) ∧
    locate? lines ⟨7, [], 7, [[chr 'b']]⟩ 0 = some 3 ∧
    MadeInRange 1 [(1, ⟨-1, [[chr 'a']], -1, [[chr 'b']]⟩)] lines (.ok [[chr 'b'], [chr 'x'], [chr 'a']]) := by
  intro lines
  have hTie := (locate?_nearest lines ⟨1, [[chr 'a']], 1, []⟩ 1).1 (by decide) (by decide)
  have hNowhere := (locate?_nearest lines ⟨1, [[chr 'b']], 1, []⟩ 5).1 (by decide) (by decide)
  have hInsertion := (locate?_nearest lines ⟨7, [], 7, [[chr 'b']]⟩ 0).2.1 rfl
  have hApplied := (locate?_nearest lines ⟨7, [], 7, [[chr 'b']]⟩ 1).2.2
    [.normal .change 0 0 0 0 [[chr 'a']] [[chr 'b']]] false
  have hOrder : orderedSplices [.normal .change 0 0 0 0 [[chr 'a']] [[chr 'b']]] false =
      [(1, ⟨-1, [[chr 'a']], -1, [[chr 'b']]⟩)] := List.mergeSort_singleton _
  rw [apply, hOrder] at hApplied
  exact ⟨((hTie.1 0).mp rfl).1, hNowhere.2.mp rfl, hInsertion, hApplied⟩

end TreeShell.Patch
