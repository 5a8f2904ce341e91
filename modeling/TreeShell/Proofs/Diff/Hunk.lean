import TreeShell.Diff.Hunk
import TreeShell.Proofs.Diff.EditScript

/-! Where the hunks of a script lie and what their heads say. The ranges of the hunks hold
every change, and at least one common line stands between two of them. The numbers in a
head count lines of the lists themselves, whatever edits stand around the hunk. -/
namespace TreeShell.Diff

/-- Ranges in a list of `total` edits, from `first` on and more than `gap` edits apart. -/
def Spaced (gap total : Nat) : (first : Nat) → List Range → Prop
  | _, [] => True
  | first, range :: rest =>
      first ≤ range.start ∧ range.start < range.stop ∧ range.stop ≤ total ∧
        Spaced gap total (range.stop + gap + 1) rest

/-- Every edit that is not common lies in one of the ranges. -/
def HoldChanges (ranges : List Range) (edits : List Edit) : Prop :=
  ∀ k edit, edits[k]? = some edit → edit.isCommon = false →
    ∃ range ∈ ranges, range.start ≤ k ∧ k < range.stop

/-- Every range is part of one of the others. -/
def PartOf (inner outer : List Range) : Prop :=
  ∀ range ∈ inner, ∃ found ∈ outer, found.start ≤ range.start ∧ range.stop ≤ found.stop

/-- Wider ranges hold what narrower ones hold. -/
theorem HoldChanges.mono {inner outer : List Range} {edits : List Edit}
    (h : HoldChanges inner edits) (hPart : PartOf inner outer) : HoldChanges outer edits := by
  intro k edit hEdit hChange
  obtain ⟨range, hRange, hStart, hStop⟩ := h k edit hEdit hChange
  obtain ⟨found, hFound, hLow, hHigh⟩ := hPart range hRange
  exact ⟨found, hFound, by omega, by omega⟩

theorem Spaced.mono {gap total first second : Nat} {ranges : List Range}
    (h : Spaced gap total first ranges) (hLe : second ≤ first) : Spaced gap total second ranges := by
  cases ranges with
  | nil => trivial
  | cons range rest => exact ⟨Nat.le_trans hLe h.1, h.2⟩

/-- Ranges that are spaced keep within the list and are not empty. -/
theorem Spaced.mem {gap total first : Nat} {ranges : List Range}
    (h : Spaced gap total first ranges) :
    ∀ range ∈ ranges, first ≤ range.start ∧ range.start < range.stop ∧ range.stop ≤ total := by
  induction ranges generalizing first with
  | nil => simp
  | cons range rest ih =>
      obtain ⟨hFirst, hStart, hStop, hRest⟩ := h
      intro found hFound
      rcases List.mem_cons.mp hFound with rfl | hFound
      · exact ⟨hFirst, hStart, hStop⟩
      · obtain ⟨hLow, hHigh⟩ := ih hRest found hFound
        exact ⟨by omega, hHigh⟩

/-- The start of the open change, or of one that opens now, is not behind the edit at hand. -/
theorem getD_opened_le {opened : Option Nat} {index : Nat}
    (h : ∀ start ∈ opened, start < index) : opened.getD index ≤ index := by
  cases opened with
  | none => exact Nat.le_refl _
  | some start => exact Nat.le_of_lt (h start rfl)

/-- The changes found from `index` on begin at the one that is open, or behind `index`. -/
theorem spaced_changesFrom (edits : List Edit) (opened : Option Nat) (index first : Nat)
    (hFirst : first ≤ opened.getD index) (hOpened : ∀ start ∈ opened, start < index) :
    Spaced 0 (index + edits.length) first (changesFrom opened index edits) := by
  induction edits generalizing opened index first with
  | nil =>
      cases opened with
      | none => trivial
      | some start => exact ⟨hFirst, hOpened start rfl, Nat.le_refl _, trivial⟩
  | cons edit rest ih =>
      have hLength : index + (edit :: rest).length = index + 1 + rest.length := by
        simp only [List.length_cons]
        omega
      rw [hLength]
      cases hCommon : edit.isCommon with
      | true =>
          cases opened with
          | none =>
              simp only [changesFrom, hCommon, if_true]
              exact ih none (index + 1) first (Nat.le_succ_of_le hFirst) (by simp)
          | some start =>
              simp only [changesFrom, hCommon, if_true]
              exact ⟨hFirst, hOpened start rfl, by dsimp only; omega,
                ih none (index + 1) (index + 1) (Nat.le_refl _) (by simp)⟩
      | false =>
          simp only [changesFrom, hCommon, Bool.false_eq_true, if_false]
          refine ih (some (opened.getD index)) (index + 1) first hFirst ?_
          rintro start ⟨⟩
          exact Nat.lt_succ_of_le (getD_opened_le hOpened)

/-- What lies in the open change or is changed from `index` on lies in a change found. -/
theorem mem_changesFrom (edits : List Edit) (opened : Option Nat) (index k : Nat)
    (hOpened : ∀ start ∈ opened, start < index)
    (h : (∃ start ∈ opened, start ≤ k ∧ k < index) ∨
      (index ≤ k ∧ ∃ edit, edits[k - index]? = some edit ∧ edit.isCommon = false)) :
    ∃ range ∈ changesFrom opened index edits, range.start ≤ k ∧ k < range.stop := by
  induction edits generalizing opened index with
  | nil =>
      rcases h with ⟨start, hStart, hLow, hHigh⟩ | ⟨_, edit, hEdit, _⟩
      · cases hStart
        exact ⟨⟨start, index⟩, by simp [changesFrom], hLow, hHigh⟩
      · simp at hEdit
  | cons edit rest ih =>
      have hLater (found : Edit) (hk : index + 1 ≤ k) (hFound : (edit :: rest)[k - index]? = some found) :
          rest[k - (index + 1)]? = some found := by
        rwa [show k - index = k - (index + 1) + 1 by omega, List.getElem?_cons_succ] at hFound
      cases hCommon : edit.isCommon with
      | true =>
          rcases h with ⟨start, hStart, hLow, hHigh⟩ | ⟨hLow, found, hFound, hChange⟩
          · cases hStart
            exact ⟨⟨start, index⟩, by simp [changesFrom, hCommon], hLow, hHigh⟩
          · have hk : index + 1 ≤ k := by
              by_contra hNot
              rw [show k - index = 0 by omega, List.getElem?_cons_zero] at hFound
              cases hFound
              simp [hCommon] at hChange
            obtain ⟨range, hRange, hIn⟩ :=
              ih none (index + 1) (by simp) (Or.inr ⟨hk, found, hLater found hk hFound, hChange⟩)
            cases opened with
            | none => exact ⟨range, by simpa [changesFrom, hCommon] using hRange, hIn⟩
            | some start =>
                exact ⟨range, by simp [changesFrom, hCommon, hRange], hIn⟩
      | false =>
          simp only [changesFrom, hCommon, Bool.false_eq_true, if_false]
          have hStart := getD_opened_le hOpened
          refine ih (some (opened.getD index)) (index + 1) ?_ ?_
          · rintro start ⟨⟩
            exact Nat.lt_succ_of_le hStart
          rcases h with ⟨start, hMem, hLow, hHigh⟩ | ⟨hLow, found, hFound, hChange⟩
          · cases hMem
            exact Or.inl ⟨start, rfl, hLow, by omega⟩
          · by_cases hk : index + 1 ≤ k
            · exact Or.inr ⟨hk, found, hLater found hk hFound, hChange⟩
            · exact Or.inl ⟨opened.getD index, rfl, by omega, by omega⟩

theorem spaced_changes (edits : List Edit) : Spaced 0 edits.length 0 (changes edits) := by
  have h := spaced_changesFrom edits none 0 0 (Nat.le_refl _) (by simp)
  rwa [Nat.zero_add] at h

theorem holdChanges_changes (edits : List Edit) : HoldChanges (changes edits) edits := by
  intro k edit hEdit hChange
  exact mem_changesFrom edits none 0 k (by simp) (Or.inr ⟨Nat.zero_le _, edit, hEdit, hChange⟩)

/-- The edits in a range are no common ones. -/
def OnlyChanges (edits : List Edit) (range : Range) : Prop :=
  ∀ k edit, range.start ≤ k → k < range.stop → edits[k]? = some edit → edit.isCommon = false

/-- The ranges of changes hold no common line, the one that is still open included. -/
theorem onlyChanges_changesFrom {edits rest : List Edit} {opened : Option Nat} {index : Nat}
    (hRest : edits.drop index = rest)
    (hOpened : ∀ start ∈ opened, OnlyChanges edits ⟨start, index⟩) :
    ∀ range ∈ changesFrom opened index rest, OnlyChanges edits range := by
  induction rest generalizing opened index with
  | nil =>
      intro range hRange
      cases opened with
      | none => cases hRange
      | some start =>
          rw [changesFrom, List.mem_singleton] at hRange
          rw [hRange]
          exact hOpened start rfl
  | cons edit rest ih =>
      have hEdit : edits[index]? = some edit := by
        rw [← List.head?_drop, hRest]
        rfl
      have hNext : edits.drop (index + 1) = rest := by
        rw [← List.drop_drop, hRest]
        rfl
      cases hCommon : edit.isCommon with
      | true =>
          have hLater := @ih none (index + 1) hNext (by simp)
          cases opened with
          | none =>
              simp only [changesFrom, hCommon, if_true]
              exact hLater
          | some start =>
              simp only [changesFrom, hCommon, if_true, List.mem_cons, forall_eq_or_imp]
              exact ⟨hOpened start rfl, hLater⟩
      | false =>
          simp only [changesFrom, hCommon, Bool.false_eq_true, if_false]
          apply ih hNext
          rintro start ⟨⟩ k found hStart hStop hFound
          rcases Nat.lt_succ_iff_lt_or_eq.mp hStop with hBefore | rfl
          · cases opened with
            | none => exact absurd hBefore (Nat.not_lt.mpr hStart)
            | some start => exact hOpened start rfl k found hStart hBefore hFound
          · rw [hEdit] at hFound
            cases hFound
            exact hCommon

theorem onlyChanges_changes {edits : List Edit} :
    ∀ range ∈ changes edits, OnlyChanges edits range :=
  onlyChanges_changesFrom List.drop_zero (by simp)

theorem OnlyChanges.mem_slice {edits : List Edit} {range : Range} (h : OnlyChanges edits range) :
    ∀ edit ∈ range.slice edits, edit.isCommon = false := by
  intro edit hMem
  obtain ⟨k, hk⟩ := List.mem_iff_getElem?.mp hMem
  rw [Range.slice, List.getElem?_take, List.getElem?_drop] at hk
  split at hk
  · exact h (range.start + k) edit (by omega) (by omega) hk
  · cases hk

/-- Joining near ranges leaves those that are far apart. -/
theorem spaced_joinFrom {gap total first : Nat} {current : Range} {rest : List Range}
    (h : Spaced 0 total first (current :: rest)) :
    Spaced gap total first (joinFrom gap current rest) := by
  induction rest generalizing current first with
  | nil =>
      obtain ⟨hFirst, hStart, hStop, _⟩ := h
      exact ⟨hFirst, hStart, hStop, trivial⟩
  | cons next rest ih =>
      obtain ⟨hFirst, hStart, hStop, hLow, hNext, hEnd, hRest⟩ := h
      rw [joinFrom]
      split
      · exact ih ⟨hFirst, by dsimp only; omega, hEnd, hRest⟩
      · exact ⟨hFirst, hStart, hStop, ih ⟨by omega, hNext, hEnd, hRest⟩⟩

/-- Joining ranges loses none of them: each is part of the range that it was joined to. -/
theorem partOf_joinFrom {gap total first : Nat} {current : Range} {rest : List Range}
    (h : Spaced 0 total first (current :: rest)) :
    PartOf (current :: rest) (joinFrom gap current rest) := by
  induction rest generalizing current first with
  | nil =>
      intro range hRange
      exact ⟨range, hRange, Nat.le_refl _, Nat.le_refl _⟩
  | cons next rest ih =>
      obtain ⟨hFirst, hStart, hStop, hLow, hNext, hEnd, hRest⟩ := h
      rw [joinFrom]
      split
      · have hSpaced : Spaced 0 total first (⟨current.start, next.stop⟩ :: rest) :=
          ⟨hFirst, by dsimp only; omega, hEnd, hRest⟩
        have hJoined := ih hSpaced
        obtain ⟨found, hFound, hFoundStart, hFoundStop⟩ := hJoined _ (List.mem_cons_self ..)
        dsimp only at hFoundStart hFoundStop
        intro range hRange
        rcases List.mem_cons.mp hRange with rfl | hRange
        · exact ⟨found, hFound, hFoundStart, by omega⟩
        · rcases List.mem_cons.mp hRange with rfl | hRange
          · exact ⟨found, hFound, by omega, hFoundStop⟩
          · exact hJoined range (List.mem_cons_of_mem _ hRange)
      · intro range hRange
        rcases List.mem_cons.mp hRange with rfl | hRange
        · exact ⟨range, List.mem_cons_self .., Nat.le_refl _, Nat.le_refl _⟩
        · obtain ⟨found, hFound, hIn⟩ := ih ⟨hLow, hNext, hEnd, hRest⟩ range hRange
          exact ⟨found, List.mem_cons_of_mem _ hFound, hIn⟩

/-- A range with lines of context around it. -/
def padded (total context : Nat) (range : Range) : Range :=
  ⟨range.start - context, min total (range.stop + context)⟩

/-- Ranges that are far enough apart can take context on both sides and do not touch. -/
theorem Spaced.padded {context total first : Nat} {ranges : List Range}
    (h : Spaced (2 * context) total first ranges) :
    Spaced 0 total (first - context) (ranges.map (padded total context)) := by
  induction ranges generalizing first with
  | nil => trivial
  | cons range rest ih =>
      obtain ⟨hFirst, hStart, hStop, hRest⟩ := h
      refine ⟨by simp only [Diff.padded]; omega, by simp only [Diff.padded]; omega,
        Nat.min_le_left .., (ih hRest).mono ?_⟩
      simp only [Diff.padded]
      omega

/-- Padding widens a range as far as the lists go, so each is part of its padded one. -/
theorem partOf_padded {gap context total first : Nat} {ranges : List Range}
    (h : Spaced gap total first ranges) : PartOf ranges (ranges.map (padded total context)) := by
  intro range hRange
  obtain ⟨_, _, hStop⟩ := h.mem range hRange
  refine ⟨_, List.mem_map_of_mem hRange, Nat.sub_le .., ?_⟩
  simp only [Diff.padded]
  omega

/-- Without ignored lines every change is reported. -/
theorem reportedChanges_eq {edits : List Edit} (hPlain : ∀ edit ∈ edits, edit.isBlank = false) :
    reportedChanges edits = changes edits := by
  apply List.filter_eq_self.mpr
  intro range hRange
  obtain ⟨_, hStart, hStop⟩ := (spaced_changes edits).mem range hRange
  have hFirst : edits[range.start] ∈ range.slice edits := by
    rw [Range.slice, List.mem_take_iff_getElem]
    exact ⟨0, by simp; omega, by simp⟩
  simp only [Bool.not_eq_true', List.all_eq_false]
  exact ⟨_, hFirst, by simp [hPlain _ (List.getElem_mem _)]⟩

/-- The hunks of a script without ignored lines cover ranges that hold every change and
between which at least one edit stands. -/
theorem hunks_eq_map_covering {edits : List Edit}
    (hPlain : ∀ edit ∈ edits, edit.isBlank = false) (context : Int) :
    ∃ ranges, hunks edits context = ranges.map (Hunk.covering edits) ∧
      Spaced 0 edits.length 0 ranges ∧ HoldChanges ranges edits := by
  have hSpaced := spaced_changes edits
  have hHold := holdChanges_changes edits
  rw [hunks, reportedChanges_eq hPlain]
  cases hChanges : changes edits with
  | nil =>
      rw [hChanges] at hSpaced hHold
      exact ⟨[], rfl, hSpaced, hHold⟩
  | cons first rest =>
      rw [hChanges] at hSpaced hHold
      have hJoined : Spaced (2 * context.toNat) edits.length 0
          (joinFrom (2 * context.toNat) first rest) := spaced_joinFrom hSpaced
      refine ⟨(joinFrom (2 * context.toNat) first rest).map (padded edits.length context.toNat), ?_,
        ?_, (hHold.mono (partOf_joinFrom hSpaced)).mono (partOf_padded hJoined)⟩
      · rw [List.map_map]
        rfl
      · simpa using hJoined.padded

/-- How many old lines a list of edits goes through. -/
def oldCount (edits : List Edit) : Nat := (edits.filterMap Edit.old?).length

/-- How many new lines a list of edits goes through. -/
def newCount (edits : List Edit) : Nat := (edits.filterMap Edit.new?).length

/-- Two parts of places in order are places in order, the second from the number on that
the first one leaves. -/
theorem eq_range'_of_append {start total : Nat} {before after : List Nat}
    (h : before ++ after = List.range' start total) :
    before = List.range' start before.length ∧
      after = List.range' (start + before.length) after.length := by
  obtain ⟨count, hCount, rfl, rfl⟩ := List.range'_eq_append_iff.mp h.symm
  simp

theorem slice_append (edits : List Edit) (range : Range) :
    edits.take range.start ++ (range.slice edits ++
      (edits.drop range.start).drop (range.stop - range.start)) = edits := by
  rw [Range.slice, List.take_append_drop, List.take_append_drop]

/-- Of all places in order the last one is one less than their number. -/
theorem getLast?_places {places : List Nat} {place : Nat}
    (h : places = List.range' 0 places.length) (hLast : places.getLast? = some place) :
    place + 1 = places.length := by
  rw [h, ← List.range_eq_range', List.getLast?_range] at hLast
  split at hLast
  · cases hLast
  · cases hLast
    omega

section Heads

variable {m n : Nat} {edits : List Edit}

/-- The lines in front of an edit are counted off the edits, since a script goes through both lists
in order. -/
theorem Covers.linesBefore_eq (h : Covers m n edits) (index : Nat) :
    linesBefore edits index = (oldCount (edits.take index), newCount (edits.take index)) := by
  have hOlds := h.olds
  have hNews := h.news
  rw [← List.take_append_drop index edits, List.filterMap_append, List.range_eq_range'] at hOlds hNews
  have hOld := (eq_range'_of_append hOlds).1
  have hNew := (eq_range'_of_append hNews).1
  rw [linesBefore]
  refine Prod.ext ?_ ?_
  · dsimp only
    split
    · exact getLast?_places hOld (by assumption)
    · rename_i hNone
      rw [oldCount, List.getLast?_eq_none_iff.mp hNone]
      rfl
  · dsimp only
    split
    · exact getLast?_places hNew (by assumption)
    · rename_i hNone
      rw [newCount, List.getLast?_eq_none_iff.mp hNone]
      rfl

/-- The old lines in a range are numbered on from those in front of it. -/
theorem Covers.olds_slice (h : Covers m n edits) (range : Range) :
    (range.slice edits).filterMap Edit.old? =
      List.range' (oldCount (edits.take range.start)) (oldCount (range.slice edits)) := by
  have hOlds := h.olds
  rw [← slice_append edits range, List.filterMap_append, List.filterMap_append,
    List.range_eq_range'] at hOlds
  have hOld := (eq_range'_of_append (eq_range'_of_append hOlds).2).1
  rwa [Nat.zero_add] at hOld

/-- The new lines in a range are numbered on from those in front of it. -/
theorem Covers.news_slice (h : Covers m n edits) (range : Range) :
    (range.slice edits).filterMap Edit.new? =
      List.range' (newCount (edits.take range.start)) (newCount (range.slice edits)) := by
  have hNews := h.news
  rw [← slice_append edits range, List.filterMap_append, List.filterMap_append,
    List.range_eq_range'] at hNews
  have hNew := (eq_range'_of_append (eq_range'_of_append hNews).2).1
  rwa [Nat.zero_add] at hNew

/-- The hunk around a range shows exactly the lines that the edits of the range go through. -/
theorem Covers.covering_eq (h : Covers m n edits) (range : Range) :
    Hunk.covering edits range = {
      range := range
      oldFirst := oldCount (edits.take range.start) + min 1 (oldCount (range.slice edits))
      oldCount := oldCount (range.slice edits)
      newFirst := newCount (edits.take range.start) + min 1 (newCount (range.slice edits))
      newCount := newCount (range.slice edits) } := by
  have hOld := h.olds_slice range
  have hNew := h.news_slice range
  rw [Hunk.covering, h.linesBefore_eq]
  simp only [Hunk.mk.injEq, true_and]
  refine ⟨?_, rfl, ?_, rfl⟩
  · split
    · rename_i hSlice
      have hCount : oldCount (range.slice edits) ≠ 0 := by simp [oldCount, hSlice]
      obtain ⟨count, hSucc⟩ := Nat.exists_eq_succ_of_ne_zero hCount
      rw [hSlice, hSucc, List.range'_succ] at hOld
      rw [hSucc, (List.cons.inj hOld).1]
      omega
    · rename_i hSlice
      simp [oldCount, hSlice]
  · split
    · rename_i hSlice
      have hCount : newCount (range.slice edits) ≠ 0 := by simp [newCount, hSlice]
      obtain ⟨count, hSucc⟩ := Nat.exists_eq_succ_of_ne_zero hCount
      rw [hSlice, hSucc, List.range'_succ] at hNew
      rw [hSucc, (List.cons.inj hNew).1]
      omega
    · rename_i hSlice
      simp [newCount, hSlice]

end Heads

end TreeShell.Diff
