import Mathlib.Data.List.Nodup
import TreeShell.Proofs.Diff.Splice

/-! Scripts under a comparison that ignores differences. The script is found between the
lines that take part; the others are put back into it, so that it goes through every line of
both lists in order. `Compares` says what such a script knows of the lines: those that it
keeps look alike, and marked are exactly those that do not take part. -/
namespace TreeShell.Diff

section Places

/-- The places from `start` on, before `total`, that are among those kept. -/
def keptFrom (kept : List Nat) (total start : Nat) : List Nat :=
  (List.range' start (total - start)).filter fun place => kept.contains place

/-- Up to the first place that is kept none is. -/
theorem first_of_keptFrom {kept rest : List Nat} {total start place : Nat}
    (h : keptFrom kept total start = place :: rest) :
    start ≤ place ∧ place < total ∧ (∀ k, start ≤ k → k < place → k ∉ kept) ∧
      rest = keptFrom kept total (place + 1) := by
  obtain ⟨before, after, hSplit, hBefore, _, hRest⟩ := List.filter_eq_cons_iff.mp h
  obtain ⟨count, hCount, rfl, hAfter⟩ := List.range'_eq_append_iff.mp hSplit
  obtain ⟨rfl, hLength, hTail⟩ := List.range'_eq_cons_iff.mp hAfter.symm
  refine ⟨by omega, by omega, ?_, ?_⟩
  · intro k hLow hHigh
    have hk := hBefore k (List.mem_range'_1.mpr ⟨hLow, by omega⟩)
    simpa using hk
  · rw [← hRest, hTail, keptFrom]
    congr 2
    omega

theorem keptFrom_eq_nil {kept : List Nat} {total start : Nat} (h : keptFrom kept total start = []) :
    ∀ k, start ≤ k → k < total → k ∉ kept := by
  intro k hLow hHigh
  have hk := List.filter_eq_nil_iff.mp h k (List.mem_range'_1.mpr ⟨hLow, by omega⟩)
  simpa using hk

/-- The places up to a stop and those behind it. -/
theorem range'_split {start stop total : Nat} (hStart : start ≤ stop) (hStop : stop ≤ total) :
    List.range' start (total - start) =
      List.range' start (stop - start) ++ List.range' stop (total - stop) := by
  rw [show total - start = stop - start + (total - stop) by omega, ← List.range'_append_1,
    Nat.add_sub_cancel' hStart]

/-- Places that are not kept can be passed over. -/
theorem keptFrom_skip {kept : List Nat} {total start stop : Nat} (hStart : start ≤ stop)
    (hStop : stop ≤ total) (h : ∀ k, start ≤ k → k < stop → k ∉ kept) :
    keptFrom kept total start = keptFrom kept total stop := by
  have hNone : (List.range' start (stop - start)).filter (fun place => kept.contains place) = [] := by
    apply List.filter_eq_nil_iff.mpr
    intro k hk
    obtain ⟨hLow, hHigh⟩ := List.mem_range'_1.mp hk
    simpa using h k hLow (by omega)
  rw [keptFrom, range'_split hStart hStop, List.filter_append, hNone, List.nil_append]
  rfl

theorem leftOut_le (kept : List Nat) {total start : Nat} (h : start ≤ total) :
    start + leftOut kept total start ≤ total := by
  have hLength := (@List.takeWhile_sublist _ (List.range (total - start))
    fun k => !kept.contains (start + k)).length_le
  rw [List.length_range] at hLength
  rw [leftOut]
  omega

/-- What is counted as left out is not kept. -/
theorem not_kept_of_leftOut {kept : List Nat} {total start k : Nat} (hLow : start ≤ k)
    (hHigh : k < start + leftOut kept total start) : k ∉ kept := by
  let run := (List.range (total - start)).takeWhile fun k => !kept.contains (start + k)
  have hIndex : k - start < run.length := by
    change k - start < leftOut kept total start
    omega
  have hPlace : run[k - start] = k - start := by
    have hPrefix := (@List.takeWhile_prefix _ (List.range (total - start))
      fun k => !kept.contains (start + k)).getElem hIndex
    rw [hPrefix, List.getElem_range]
  have hPlain := List.all_eq_true.mp List.all_takeWhile _ (List.getElem_mem hIndex)
  rw [hPlace, Nat.add_sub_cancel' hLow] at hPlain
  simpa using hPlain

/-- Up to `count` places that are left out can be passed over at once. -/
theorem passed_over (kept : List Nat) {total start : Nat} (count : Nat) (hStart : start ≤ total) :
    let stop := start + min count (leftOut kept total start)
    start ≤ stop ∧ stop ≤ total ∧ (∀ k, start ≤ k → k < stop → k ∉ kept) ∧
      keptFrom kept total start = keptFrom kept total stop := by
  intro stop
  have hMin : stop ≤ start + leftOut kept total start := Nat.add_le_add_left (Nat.min_le_right ..) _
  have hLow : start ≤ stop := Nat.le_add_right ..
  have hHigh : stop ≤ total := Nat.le_trans hMin (leftOut_le kept hStart)
  have hFree : ∀ k, start ≤ k → k < stop → k ∉ kept :=
    fun k hk hBefore => not_kept_of_leftOut hk (Nat.lt_of_lt_of_le hBefore hMin)
  exact ⟨hLow, hHigh, hFree, keptFrom_skip hLow hHigh hFree⟩

end Places

section Restore

variable {keptOld keptNew : List Nat} {oldTotal newTotal : Nat}

/-- An edit of lines that were left out of the comparison. -/
def Edit.LeftOut (keptOld keptNew : List Nat) : Edit → Prop
  | .common i j => i ∉ keptOld ∧ j ∉ keptNew
  | .delete i blank => i ∉ keptOld ∧ blank = true
  | .add j blank => j ∉ keptNew ∧ blank = true

theorem olds_fill (old new oldEnd newEnd : Nat) :
    (fill old new oldEnd newEnd).filterMap Edit.old? = List.range' old (oldEnd - old) := by
  have hFacing : min (oldEnd - old) (newEnd - new) ≤ oldEnd - old := Nat.min_le_left ..
  simp only [fill, List.filterMap_append, List.filterMap_map, Function.comp_def, Edit.old?,
    List.filterMap_none, List.append_nil, List.filterMap_eq_map']
  rw [← List.range'_eq_map_range, ← List.range'_eq_map_range, List.range'_append_1,
    Nat.add_sub_cancel' hFacing]

theorem news_fill (old new oldEnd newEnd : Nat) :
    (fill old new oldEnd newEnd).filterMap Edit.new? = List.range' new (newEnd - new) := by
  have hFacing : min (oldEnd - old) (newEnd - new) ≤ newEnd - new := Nat.min_le_right ..
  simp only [fill, List.filterMap_append, List.filterMap_map, Function.comp_def, Edit.new?,
    List.filterMap_none, List.append_nil, List.filterMap_eq_map']
  rw [← List.range'_eq_map_range, ← List.range'_eq_map_range, List.range'_append_1,
    Nat.add_sub_cancel' hFacing]

/-- Between two kept lines a filled script goes through lines that are left out. -/
theorem leftOut_of_mem_fill {old new oldEnd newEnd : Nat}
    (hOld : ∀ k, old ≤ k → k < oldEnd → k ∉ keptOld)
    (hNew : ∀ k, new ≤ k → k < newEnd → k ∉ keptNew) :
    ∀ edit ∈ fill old new oldEnd newEnd, edit.LeftOut keptOld keptNew := by
  intro edit hMem
  simp only [fill, List.mem_append, List.mem_map, List.mem_range] at hMem
  rcases hMem with (⟨k, hk, rfl⟩ | ⟨k, hk, rfl⟩) | ⟨k, hk, rfl⟩
  · exact ⟨hOld _ (by omega) (by omega), hNew _ (by omega) (by omega)⟩
  · exact ⟨hOld _ (by omega) (by omega), rfl⟩
  · exact ⟨hNew _ (by omega) (by omega), rfl⟩

/-- What stands behind `old` and `new` after the lines left out have been put back among
`edits`. -/
structure Restored (keptOld keptNew : List Nat) (oldTotal newTotal old new : Nat)
    (edits result : List Edit) : Prop where
  olds : result.filterMap Edit.old? = List.range' old (oldTotal - old)
  news : result.filterMap Edit.new? = List.range' new (newTotal - new)
  mem : ∀ edit ∈ result, edit ∈ edits ∨ edit.LeftOut keptOld keptNew

/-- One edit with the lines left out before it, and then the rest. -/
theorem Restored.cons {old new oldEnd newEnd oldNext newNext : Nat} {edit : Edit}
    {edits result : List Edit}
    (h : Restored keptOld keptNew oldTotal newTotal oldNext newNext edits result)
    (hOld : ∀ k, old ≤ k → k < oldEnd → k ∉ keptOld)
    (hNew : ∀ k, new ≤ k → k < newEnd → k ∉ keptNew)
    (hOlds : List.range' old (oldTotal - old) = List.range' old (oldEnd - old) ++
      (edit.old?.toList ++ List.range' oldNext (oldTotal - oldNext)))
    (hNews : List.range' new (newTotal - new) = List.range' new (newEnd - new) ++
      (edit.new?.toList ++ List.range' newNext (newTotal - newNext))) :
    Restored keptOld keptNew oldTotal newTotal old new (edit :: edits)
      (fill old new oldEnd newEnd ++ edit :: result) where
  olds := by
    rw [hOlds, ← h.olds, ← olds_fill old new oldEnd newEnd, List.filterMap_append, List.filterMap_cons]
    cases edit.old? <;> rfl
  news := by
    rw [hNews, ← h.news, ← news_fill old new oldEnd newEnd, List.filterMap_append, List.filterMap_cons]
    cases edit.new? <;> rfl
  mem := by
    intro found hMem
    rcases List.mem_append.mp hMem with hMem | hMem
    · exact Or.inr (leftOut_of_mem_fill hOld hNew found hMem)
    rcases List.mem_cons.mp hMem with rfl | hMem
    · exact Or.inl (List.mem_cons_self ..)
    · exact (h.mem found hMem).imp_left (List.mem_cons_of_mem _)

/-- The places up to one that an edit names, that place, and the others. -/
theorem range'_split_at {start place total : Nat} (hStart : start ≤ place) (hPlace : place < total) :
    List.range' start (total - start) = List.range' start (place - start) ++
      ((some place).toList ++ List.range' (place + 1) (total - (place + 1))) := by
  rw [range'_split hStart (Nat.le_of_lt hPlace), show total - place = total - (place + 1) + 1 by omega,
    List.range'_succ]
  rfl

/-- A script that goes through the places that are kept becomes one that goes through all. -/
theorem restored_restoreFrom {edits : List Edit} {old new : Nat} (hOld : old ≤ oldTotal)
    (hNew : new ≤ newTotal)
    (hOlds : edits.filterMap Edit.old? = keptFrom keptOld oldTotal old)
    (hNews : edits.filterMap Edit.new? = keptFrom keptNew newTotal new) :
    Restored keptOld keptNew oldTotal newTotal old new edits
      (restoreFrom keptOld keptNew oldTotal newTotal old new edits) := by
  induction edits generalizing old new with
  | nil =>
      refine ⟨olds_fill .., news_fill .., fun edit hMem => Or.inr ?_⟩
      exact leftOut_of_mem_fill (keptFrom_eq_nil hOlds.symm) (keptFrom_eq_nil hNews.symm) edit hMem
  | cons edit edits ih =>
      cases edit with
      | common i j =>
          obtain ⟨hLowOld, hHighOld, hGapOld, hRestOld⟩ := first_of_keptFrom hOlds.symm
          obtain ⟨hLowNew, hHighNew, hGapNew, hRestNew⟩ := first_of_keptFrom hNews.symm
          exact (ih hHighOld hHighNew hRestOld hRestNew).cons hGapOld hGapNew
            (range'_split_at hLowOld hHighOld) (range'_split_at hLowNew hHighNew)
      | delete i blank =>
          -- New lines that were left out face the old ones before the deletion.
          obtain ⟨hLow, hHigh, hGap, hRest⟩ := first_of_keptFrom hOlds.symm
          obtain ⟨hStart, hEnd, hFree, hSkip⟩ := passed_over keptNew (i - old) hNew
          refine (ih hHigh (Nat.max_le.mpr ⟨hNew, hEnd⟩) hRest ?_).cons hGap hFree
            (range'_split_at hLow hHigh) ?_
          · rw [Nat.max_eq_right hStart, ← hSkip]
            exact hNews
          · rw [Nat.max_eq_right hStart]
            exact range'_split hStart hEnd
      | add j blank =>
          obtain ⟨hLow, hHigh, hGap, hRest⟩ := first_of_keptFrom hNews.symm
          obtain ⟨hStart, hEnd, hFree, hSkip⟩ := passed_over keptOld (j - new) hOld
          refine (ih (Nat.max_le.mpr ⟨hOld, hEnd⟩) hHigh ?_ hRest).cons hFree hGap ?_
            (range'_split_at hLow hHigh)
          · rw [Nat.max_eq_right hStart, ← hSkip]
            exact hOlds
          · rw [Nat.max_eq_right hStart]
            exact range'_split hStart hEnd

end Restore

section View

variable (options : Comparison)

/-- What the comparison sees of a line. -/
def Comparison.seen (line : Text) : Option Text :=
  if options.counts line then some (options.normalize line) else none

theorem Comparison.seen_eq_none_iff {line : Text} :
    options.seen line = none ↔ options.counts line = false := by
  simp [Comparison.seen]

/-- A view lists the lines that are compared, with the places where they stand. -/
theorem Comparison.viewFrom_eq (place : Nat) (lines : List Text) :
    options.viewFrom place lines = (List.range lines.length).filterMap fun i =>
      (options.seen (lineAt lines i)).map (·, place + i) := by
  induction lines generalizing place with
  | nil => rfl
  | cons line rest ih =>
      have hRest : (List.range rest.length).filterMap (fun i =>
            (options.seen (lineAt (line :: rest) (i + 1))).map (·, place + (i + 1))) =
          options.viewFrom (place + 1) rest := by
        rw [ih]
        apply List.filterMap_congr
        intro i _
        rw [Nat.add_right_comm, Nat.add_assoc]
        rfl
      have hFirst : lineAt (line :: rest) 0 = line := rfl
      rw [List.length_cons, List.range_succ_eq_map, List.filterMap_cons, List.filterMap_map,
        Function.comp_def, hFirst, hRest, Comparison.viewFrom, Comparison.seen]
      split <;> simp_all

/-- The lines that take part are those that the comparison sees. -/
theorem Comparison.compared_eq (lines : List Text) :
    options.compared lines = lines.filterMap options.seen := by
  conv_rhs => rw [← map_lineAt_range lines, List.filterMap_map]
  rw [Comparison.compared, Comparison.view, options.viewFrom_eq, List.map_filterMap]
  apply List.filterMap_congr
  intro i _
  cases h : options.seen (lineAt lines i) <;> simp [h]

/-- The places of the lines that take part. -/
def Comparison.places (lines : List Text) : List Nat := (options.view lines).map Prod.snd

theorem Comparison.places_eq (lines : List Text) :
    options.places lines =
      (List.range lines.length).filter fun i => options.counts (lineAt lines i) := by
  rw [Comparison.places, Comparison.view, options.viewFrom_eq, List.map_filterMap,
    ← List.filterMap_eq_filter]
  apply List.filterMap_congr
  intro i _
  cases h : options.counts (lineAt lines i) <;> simp [Comparison.seen, h, Option.guard]

theorem Comparison.length_places (lines : List Text) :
    (options.places lines).length = (options.compared lines).length := by
  rw [Comparison.places, Comparison.compared, List.length_map, List.length_map]

/-- Of the places that count all are kept. -/
theorem Comparison.keptFrom_places (lines : List Text) :
    keptFrom (options.places lines) lines.length 0 = options.places lines := by
  rw [keptFrom, Nat.sub_zero, ← List.range_eq_range']
  conv_rhs => rw [options.places_eq]
  apply List.filter_congr
  intro i hi
  rw [options.places_eq, Bool.eq_iff_iff]
  simp [List.mem_range.mp hi]

/-- A line that takes part is found again at its place. -/
theorem Comparison.seen_place {lines : List Text} {k : Nat} {line : Text}
    (h : (options.compared lines)[k]? = some line) :
    options.seen (lineAt lines ((options.places lines).getD k 0)) = some line := by
  rw [Comparison.compared, List.getElem?_map] at h
  obtain ⟨⟨found, i⟩, hEntry, rfl⟩ := Option.map_eq_some_iff.mp h
  have hPlace : (options.places lines).getD k 0 = i := by
    rw [Comparison.places, List.getD_eq_getElem?_getD, List.getElem?_map, hEntry]
    rfl
  have hMem := List.mem_of_getElem? hEntry
  rw [Comparison.view, options.viewFrom_eq] at hMem
  obtain ⟨j, _, hj⟩ := List.mem_filterMap.mp hMem
  obtain ⟨text, hText, hSame⟩ := Option.map_eq_some_iff.mp hj
  rw [Nat.zero_add] at hSame
  cases hSame
  rw [hPlace, hText]

theorem Comparison.mem_places_iff {lines : List Text} {i : Nat} :
    i ∈ options.places lines ↔ i < lines.length ∧ options.counts (lineAt lines i) = true := by
  rw [options.places_eq, List.mem_filter, List.mem_range]

end View

/-- A script between two lists under a comparison: it covers both, the lines that it keeps
look alike, and it marks the changes of lines that do not take part. -/
structure Compares (options : Comparison) (a b : List Text) (edits : List Edit) : Prop
    extends Covers a.length b.length edits where
  common : ∀ i j, Edit.common i j ∈ edits → options.seen (lineAt a i) = options.seen (lineAt b j)
  delete : ∀ i blank, Edit.delete i blank ∈ edits → blank = !options.counts (lineAt a i)
  add : ∀ j blank, Edit.add j blank ∈ edits → blank = !options.counts (lineAt b j)

section Script

variable (options : Comparison) (a b : List Text)

/-- The script between the lines that take part, at their places among all lines. -/
def comparedScript : List Edit :=
  (script (options.compared a) (options.compared b)).map
    (Edit.relocate (fun i => (options.places a).getD i 0) (fun j => (options.places b).getD j 0))

/-- The compared script goes through the old lines that count, in order. -/
theorem olds_comparedScript :
    (comparedScript options a b).filterMap Edit.old? = options.places a := by
  have hOlds := (isScript_script (options.compared a) (options.compared b)).olds
  rw [← options.length_places] at hOlds
  rw [comparedScript, List.filterMap_map]
  conv_rhs => rw [← map_getD_range (options.places a) 0, ← hOlds, List.map_filterMap]
  simp only [Function.comp_def, old?_relocate]

/-- The compared script goes through the new lines that count, in order. -/
theorem news_comparedScript :
    (comparedScript options a b).filterMap Edit.new? = options.places b := by
  have hNews := (isScript_script (options.compared a) (options.compared b)).news
  rw [← options.length_places] at hNews
  rw [comparedScript, List.filterMap_map]
  conv_rhs => rw [← map_getD_range (options.places b) 0, ← hNews, List.map_filterMap]
  simp only [Function.comp_def, new?_relocate]

/-- Lines that a script calls common look the same under the options, also where they differ. -/
theorem seen_eq_of_comparedScript {i j : Nat} (h : Edit.common i j ∈ comparedScript options a b) :
    options.seen (lineAt a i) = options.seen (lineAt b j) := by
  have hScript := isScript_script (options.compared a) (options.compared b)
  obtain ⟨edit, hEdit, hSame⟩ := List.mem_map.mp h
  cases edit with
  | common k l =>
      cases hSame
      have hLine := List.getElem?_eq_getElem (hScript.old_lt hEdit rfl)
      rw [options.seen_place hLine, options.seen_place ((hScript.common k l hEdit).symm.trans hLine)]
  | delete k blank => cases hSame
  | add l blank => cases hSame

theorem isBlank_comparedScript : ∀ edit ∈ comparedScript options a b, edit.isBlank = false := by
  intro edit hMem
  obtain ⟨found, hFound, rfl⟩ := List.mem_map.mp hMem
  rw [isBlank_relocate]
  exact isBlank_script _ _ found hFound

theorem counts_of_mem_olds {i : Nat} (h : i ∈ (comparedScript options a b).filterMap Edit.old?) :
    options.counts (lineAt a i) = true := by
  rw [olds_comparedScript] at h
  exact ((options.mem_places_iff).mp h).2

theorem counts_of_mem_news {j : Nat} (h : j ∈ (comparedScript options a b).filterMap Edit.new?) :
    options.counts (lineAt b j) = true := by
  rw [news_comparedScript] at h
  exact ((options.mem_places_iff).mp h).2

/-- A script that covers both lists compares them if its edits are between lines that take
part, or of lines that do not. -/
theorem Covers.compares {edits : List Edit} (h : Covers a.length b.length edits)
    (hMem : ∀ edit ∈ edits, edit ∈ comparedScript options a b ∨
      edit.LeftOut (options.places a) (options.places b)) : Compares options a b edits := by
  have hOld {i : Nat} {edit : Edit} (hEdit : edit ∈ edits) (hPlace : edit.old? = some i)
      (hOut : i ∉ options.places a) : options.counts (lineAt a i) = false := by
    simpa [options.mem_places_iff, h.old_lt hEdit hPlace] using hOut
  have hNew {j : Nat} {edit : Edit} (hEdit : edit ∈ edits) (hPlace : edit.new? = some j)
      (hOut : j ∉ options.places b) : options.counts (lineAt b j) = false := by
    simpa [options.mem_places_iff, h.new_lt hEdit hPlace] using hOut
  refine ⟨h, fun i j hEdit => ?_, fun i blank hEdit => ?_, fun j blank hEdit => ?_⟩
  · rcases hMem _ hEdit with hCompared | ⟨hOutOld, hOutNew⟩
    · exact seen_eq_of_comparedScript options a b hCompared
    · rw [options.seen_eq_none_iff.mpr (hOld hEdit rfl hOutOld),
        options.seen_eq_none_iff.mpr (hNew hEdit rfl hOutNew)]
  · rcases hMem _ hEdit with hCompared | ⟨hOut, rfl⟩
    · rw [counts_of_mem_olds options a b (List.mem_filterMap.mpr ⟨_, hCompared, rfl⟩)]
      exact isBlank_comparedScript options a b _ hCompared
    · rw [hOld hEdit rfl hOut]
      rfl
  · rcases hMem _ hEdit with hCompared | ⟨hOut, rfl⟩
    · rw [counts_of_mem_news options a b (List.mem_filterMap.mpr ⟨_, hCompared, rfl⟩)]
      exact isBlank_comparedScript options a b _ hCompared
    · rw [hNew hEdit rfl hOut]
      rfl

theorem Comparison.places_eq_range (h : options.ignoreBlankLines = false) (lines : List Text) :
    options.places lines = List.range lines.length := by
  rw [options.places_eq, List.filter_eq_self]
  simp [Comparison.counts, h]

/-- The script under a comparison goes through every line, and its edits are between lines that
take part, or of lines that do not. -/
theorem editScript_parts : Covers a.length b.length (editScript options a b) ∧
    ∀ edit ∈ editScript options a b, edit ∈ comparedScript options a b ∨
      edit.LeftOut (options.places a) (options.places b) := by
  have hOlds := olds_comparedScript options a b
  have hNews := news_comparedScript options a b
  rw [editScript]
  split
  · rw [← options.keptFrom_places] at hOlds hNews
    have hRestored := restored_restoreFrom (Nat.zero_le _) (Nat.zero_le _) hOlds hNews
    refine ⟨⟨?_, ?_⟩, hRestored.mem⟩
    · rw [List.range_eq_range']
      exact hRestored.olds
    · rw [List.range_eq_range']
      exact hRestored.news
  · rename_i hBlank
    rw [options.places_eq_range (by simpa using hBlank)] at hOlds hNews
    exact ⟨⟨hOlds, hNews⟩, fun edit hMem => Or.inl hMem⟩

/-- The script under a comparison knows which lines took part. -/
theorem compares_editScript : Compares options a b (editScript options a b) := by
  obtain ⟨hCovers, hMem⟩ := editScript_parts options a b
  exact hCovers.compares options a b hMem

end Script

theorem Comparison.seen_exact (line : Text) : Comparison.exact.seen line = some line := rfl

theorem getElem?_eq_lineAt {lines : List Text} {i : Nat} (h : i < lines.length) :
    lines[i]? = some (lineAt lines i) := by
  rw [lineAt, List.getD_eq_getElem?_getD, List.getElem?_eq_getElem h, Option.getD_some]

/-- A comparison that ignores nothing finds a script between the lines themselves. -/
theorem Compares.isScript {a b : List Text} {edits : List Edit}
    (h : Compares .exact a b edits) : IsScript a b edits := by
  refine ⟨h.toCovers, fun i j hMem => ?_⟩
  rw [getElem?_eq_lineAt (h.old_lt hMem rfl), getElem?_eq_lineAt (h.new_lt hMem rfl)]
  exact h.common i j hMem

/-- An exact comparison marks no edit as blank. -/
theorem Compares.isBlank_eq_false {a b : List Text} {edits : List Edit}
    (h : Compares .exact a b edits) : ∀ edit ∈ edits, edit.isBlank = false := by
  intro edit hMem
  cases edit with
  | common i j => rfl
  | delete i blank => exact h.delete i blank hMem
  | add j blank => exact h.add j blank hMem

/-- The line that an edit deletes or adds. -/
def Edit.changedLine? (a b : List Text) : Edit → Option Text
  | .common .. => none
  | .delete i _ => a[i]?
  | .add j _ => b[j]?

theorem Comparison.counts_eq_false_iff {options : Comparison} {line : Text} :
    options.counts line = false ↔ options.ignoreBlankLines = true ∧ Text.allBlank line = true := by
  simp [Comparison.counts]

/-- Lines look alike if their forms that are compared are equal, or if both are blank and such
lines are ignored. -/
theorem Comparison.alike_of_seen_eq {options : Comparison} {x y : Text}
    (h : options.seen x = options.seen y) :
    options.normalize x = options.normalize y ∨
      options.ignoreBlankLines = true ∧ Text.allBlank x = true ∧ Text.allBlank y = true := by
  by_cases hCounts : options.counts x = true
  · rw [Comparison.seen, Comparison.seen, if_pos hCounts] at h
    split at h
    · exact Or.inl (Option.some.inj h)
    · cases h
  · have hOld : options.counts x = false := by simpa using hCounts
    have hNew : options.counts y = false := by
      rw [← options.seen_eq_none_iff, ← h, options.seen_eq_none_iff, hOld]
    rw [Comparison.counts_eq_false_iff] at hOld hNew
    exact Or.inr ⟨hOld.1, hOld.2, hNew.2⟩

/-- Whatever is ignored, an edit script goes through every line of both lists in order. What it
keeps looks alike, and it marks the deletion or addition of a blank line exactly if such lines
are ignored. -/
theorem editScript_covers (options : Comparison) (a b : List Text) :
    Covers a.length b.length (editScript options a b) ∧
      (∀ i j, Edit.common i j ∈ editScript options a b → ∃ x y, a[i]? = some x ∧ b[j]? = some y ∧
        (options.normalize x = options.normalize y ∨
          options.ignoreBlankLines = true ∧ Text.allBlank x = true ∧ Text.allBlank y = true)) ∧
      ∀ edit ∈ editScript options a b, (edit.isBlank = true ↔ options.ignoreBlankLines = true ∧
        ∃ line, edit.changedLine? a b = some line ∧ Text.allBlank line = true) := by
  have h := compares_editScript options a b
  refine ⟨h.toCovers, fun i j hMem => ?_, fun edit hMem => ?_⟩
  · exact ⟨_, _, getElem?_eq_lineAt (h.old_lt hMem rfl), getElem?_eq_lineAt (h.new_lt hMem rfl),
      Comparison.alike_of_seen_eq (h.common i j hMem)⟩
  · cases edit with
    | common i j => simp [Edit.isBlank, Edit.changedLine?]
    | delete i blank =>
        rw [Edit.isBlank, h.delete i blank hMem, Edit.changedLine?,
          getElem?_eq_lineAt (h.old_lt hMem rfl)]
        simp [Comparison.counts]
    | add j blank =>
        rw [Edit.isBlank, h.add j blank hMem, Edit.changedLine?,
          getElem?_eq_lineAt (h.new_lt hMem rfl)]
        simp [Comparison.counts]

end TreeShell.Diff
