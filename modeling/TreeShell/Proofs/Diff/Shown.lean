import TreeShell.Proofs.Diff.Hunk

/-! Which parts of a script are shown. A change of ignored lines only is passed over, but a
range with context may run into it and may even end inside it. What every reader of hunks
can rely on is that each range holds a reported change, and that some common line stands
between the beginnings of two ranges. -/
namespace TreeShell.Diff

/-- A common edit stands between the beginnings of two ranges. -/
def Apart (edits : List Edit) (first second : Range) : Prop :=
  ∃ k edit, first.start ≤ k ∧ k < second.start ∧ edits[k]? = some edit ∧ edit.isCommon = true

/-- Ranges that show the reported changes of a script, and no range for anything else. -/
structure Shown (edits : List Edit) (ranges : List Range) : Prop where
  spaced : Spaced 0 edits.length 0 ranges
  whole : PartOf (reportedChanges edits) ranges
  needed : ∀ range ∈ ranges, ∃ change ∈ reportedChanges edits,
    range.start ≤ change.start ∧ change.stop ≤ range.stop
  apart : ranges.Pairwise (Apart edits)

theorem Spaced.filter {gap total first : Nat} {ranges : List Range} (p : Range → Bool)
    (h : Spaced gap total first ranges) : Spaced gap total first (ranges.filter p) := by
  induction ranges generalizing first with
  | nil => trivial
  | cons range rest ih =>
      obtain ⟨hFirst, hStart, hStop, hRest⟩ := h
      rw [List.filter_cons]
      split
      · exact ⟨hFirst, hStart, hStop, ih hRest⟩
      · exact (ih hRest).mono (by omega)

/-- Between any two ranges there is at least the gap, not only between neighbours. -/
theorem Spaced.pairwise {gap total first : Nat} {ranges : List Range}
    (h : Spaced gap total first ranges) :
    ranges.Pairwise fun range later => range.stop + gap + 1 ≤ later.start := by
  induction ranges generalizing first with
  | nil => exact .nil
  | cons range rest ih =>
      obtain ⟨_, _, _, hRest⟩ := h
      exact .cons (fun later hLater => (hRest.mem later hLater).1) (ih hRest)

/-- No range goes on behind the end of another one. -/
theorem Spaced.stop_le_or_lt {gap total first : Nat} {ranges : List Range} {range other : Range}
    (h : Spaced gap total first ranges) (hRange : range ∈ ranges) (hOther : other ∈ ranges) :
    other.stop ≤ range.stop ∨ range.stop < other.start := by
  induction ranges generalizing first with
  | nil => cases hRange
  | cons head rest ih =>
      obtain ⟨_, hHead, _, hRest⟩ := h
      rcases List.mem_cons.mp hRange with rfl | hLater
      · rcases List.mem_cons.mp hOther with rfl | hOther
        · exact Or.inl (Nat.le_refl _)
        · have hBehind := (hRest.mem other hOther).1
          omega
      · rcases List.mem_cons.mp hOther with rfl | hOther
        · obtain ⟨hBehind, hNonempty, _⟩ := hRest.mem range hLater
          omega
        · exact ih hRest hLater hOther

/-- A change ends where a common line stands, or at the end of the script. -/
theorem isCommon_behind_change {edits : List Edit} {change : Range} {edit : Edit}
    (hChange : change ∈ changes edits) (hEdit : edits[change.stop]? = some edit) :
    edit.isCommon = true := by
  by_contra hNot
  obtain ⟨other, hOther, hStart, hStop⟩ :=
    holdChanges_changes edits change.stop edit hEdit (by simpa using hNot)
  rcases (spaced_changes edits).stop_le_or_lt hChange hOther with hBefore | hBehind <;> omega

theorem mem_changes_of_reported {edits : List Edit} {change : Range}
    (h : change ∈ reportedChanges edits) : change ∈ changes edits :=
  List.mem_of_mem_filter h

theorem spaced_reportedChanges (edits : List Edit) :
    Spaced 0 edits.length 0 (reportedChanges edits) :=
  (spaced_changes edits).filter _

/-- The common line behind a change keeps it apart from what begins further behind. -/
theorem apart_of_change {edits : List Edit} {change first second : Range}
    (hChange : change ∈ reportedChanges edits) (hFirst : first.start ≤ change.stop)
    (hSecond : change.stop < second.start) (hTotal : second.start < edits.length) :
    Apart edits first second := by
  have hEdit : edits[change.stop]? = some edits[change.stop] := List.getElem?_eq_getElem (by omega)
  exact ⟨change.stop, _, hFirst, hSecond, hEdit,
    isCommon_behind_change (mem_changes_of_reported hChange) hEdit⟩

/-- The reported changes by themselves, without context. -/
theorem shown_reportedChanges (edits : List Edit) : Shown edits (reportedChanges edits) where
  spaced := spaced_reportedChanges edits
  whole change hChange := ⟨change, hChange, Nat.le_refl _, Nat.le_refl _⟩
  needed change hChange := ⟨change, hChange, Nat.le_refl _, Nat.le_refl _⟩
  apart := by
    have hSpaced := spaced_reportedChanges edits
    refine hSpaced.pairwise.imp_of_mem fun {change later} hChange hLater hBehind => ?_
    obtain ⟨_, hStart, _⟩ := hSpaced.mem change hChange
    obtain ⟨_, hNonempty, hStop⟩ := hSpaced.mem later hLater
    exact apart_of_change hChange (by omega) (by omega) (by omega)

/-- A joined range ends with the last of the ranges that were joined. -/
theorem exists_last_of_joinFrom {gap total first : Nat} {current : Range} {rest : List Range}
    (h : Spaced 0 total first (current :: rest)) :
    ∀ range ∈ joinFrom gap current rest, ∃ change ∈ current :: rest,
      range.start ≤ change.start ∧ change.stop = range.stop := by
  induction rest generalizing current first with
  | nil =>
      intro range hRange
      exact ⟨range, hRange, Nat.le_refl _, rfl⟩
  | cons next rest ih =>
      obtain ⟨hFirst, hStart, hStop, hLow, hNext, hEnd, hRest⟩ := h
      intro range hRange
      rw [joinFrom] at hRange
      split at hRange
      · have hSpaced : Spaced 0 total first (⟨current.start, next.stop⟩ :: rest) :=
          ⟨hFirst, by dsimp only; omega, hEnd, hRest⟩
        obtain ⟨change, hChange, hFound, hSame⟩ := ih hSpaced range hRange
        rcases List.mem_cons.mp hChange with rfl | hChange
        · exact ⟨next, by simp, by dsimp only at hFound; omega, hSame⟩
        · exact ⟨change, by simp [hChange], hFound, hSame⟩
      · rcases List.mem_cons.mp hRange with rfl | hRange
        · exact ⟨range, List.mem_cons_self .., Nat.le_refl _, rfl⟩
        · obtain ⟨change, hChange, hFound⟩ := ih ⟨hLow, hNext, hEnd, hRest⟩ range hRange
          exact ⟨change, List.mem_cons_of_mem _ hChange, hFound⟩

/-- Being part of ranges that are part of others. -/
theorem PartOf.trans {inner middle outer : List Range} (h : PartOf inner middle)
    (hOuter : PartOf middle outer) : PartOf inner outer := by
  intro range hRange
  obtain ⟨found, hFound, hStart, hStop⟩ := h range hRange
  obtain ⟨last, hLast, hLow, hHigh⟩ := hOuter found hFound
  exact ⟨last, hLast, by omega, by omega⟩

/-- The hunks of a script cover ranges that show its reported changes. -/
theorem hunks_eq_map_shown (edits : List Edit) (context : Int) :
    ∃ ranges, hunks edits context = ranges.map (Hunk.covering edits) ∧ Shown edits ranges := by
  have hSpaced := spaced_reportedChanges edits
  rw [hunks]
  cases hChanges : reportedChanges edits with
  | nil =>
      refine ⟨[], rfl, trivial, ?_, by simp, .nil⟩
      rw [hChanges]
      exact fun range hRange => absurd hRange (by simp)
  | cons first rest =>
      rw [hChanges] at hSpaced
      let joined := joinFrom (2 * context.toNat) first rest
      have hJoined : Spaced (2 * context.toNat) edits.length 0 joined := spaced_joinFrom hSpaced
      have hLast := @exists_last_of_joinFrom (2 * context.toNat) _ _ _ _ hSpaced
      rw [← hChanges] at hLast
      refine ⟨joined.map (padded edits.length context.toNat), ?_, ?_, ?_, ?_, ?_⟩
      · rw [List.map_map]
        rfl
      · simpa using hJoined.padded
      · rw [hChanges]
        exact (partOf_joinFrom hSpaced).trans (partOf_padded hJoined)
      · intro range hRange
        obtain ⟨inner, hInner, rfl⟩ := List.mem_map.mp hRange
        obtain ⟨change, hChange, hStart, hStop⟩ := hLast inner hInner
        obtain ⟨_, _, hTotal⟩ := hJoined.mem inner hInner
        exact ⟨change, hChange, by simp only [padded]; omega, by simp only [padded]; omega⟩
      · -- The line behind the last change of a range is in its context, or behind it.
        rw [List.pairwise_map]
        refine hJoined.pairwise.imp_of_mem fun {inner later} hInner hLater hBehind => ?_
        obtain ⟨change, hChange, hStart, hStop⟩ := hLast inner hInner
        obtain ⟨_, hNonempty, _⟩ := hJoined.mem inner hInner
        obtain ⟨_, hLength, hTotal⟩ := hJoined.mem later hLater
        exact apart_of_change hChange (by simp only [padded]; omega) (by simp only [padded]; omega)
          (by simp only [padded]; omega)

/-- Without ignored lines, what is shown holds every change. -/
theorem Shown.holdChanges {edits : List Edit} {ranges : List Range} (h : Shown edits ranges)
    (hPlain : ∀ edit ∈ edits, edit.isBlank = false) : HoldChanges ranges edits := by
  have hWhole := h.whole
  rw [reportedChanges_eq hPlain] at hWhole
  exact (holdChanges_changes edits).mono hWhole

/-- A range that is shown has a change in it. -/
theorem Shown.exists_change {edits : List Edit} {ranges : List Range} (h : Shown edits ranges)
    {range : Range} (hRange : range ∈ ranges) :
    ∃ edit ∈ range.slice edits, edit.isCommon = false := by
  obtain ⟨change, hChange, hStart, hStop⟩ := h.needed range hRange
  obtain ⟨_, hNonempty, hTotal⟩ := (spaced_reportedChanges edits).mem change hChange
  have hEdit : edits[change.start]? = some edits[change.start] := List.getElem?_eq_getElem (by omega)
  refine ⟨edits[change.start], List.mem_iff_getElem?.mpr ⟨change.start - range.start, ?_⟩,
    onlyChanges_changes change (mem_changes_of_reported hChange) _ _ (Nat.le_refl _) hNonempty hEdit⟩
  rw [Range.slice, List.getElem?_take, if_pos (by omega), List.getElem?_drop,
    Nat.add_sub_cancel' hStart, hEdit]

end TreeShell.Diff
