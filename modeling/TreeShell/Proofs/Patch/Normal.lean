import TreeShell.Proofs.Patch.Reader

/-! The normal form, written and read back. A change has no names and no context; its head
says where it stands on both sides, its lines are told apart by their marks alone, and the
next head begins with a digit. The main statement is `normal_roundTrip`: the written
difference of two lists, read as a patch, turns each list into the other. -/
namespace TreeShell.Patch

open Text Diff

def Action.mark : Action → CodePoint
  | .add => chr 'a'
  | .delete => chr 'd'
  | .change => chr 'c'

/-- A range of one line is written as one number and read as a range that ends where it begins. -/
theorem range?_normalRange (first last : Nat) {rest : Text}
    (hRest : ∀ c ∈ rest.head?, isDecimalDigit c = false ∧ c ≠ ',') :
    ∃ second, range? (normalRange first last ++ rest) = some (first, second, rest) ∧
      second.getD first = last := by
  have hDigit : ∀ c ∈ rest.head?, isDecimalDigit c = false := fun c hc => (hRest c hc).1
  rw [normalRange]
  split
  · rename_i hSame
    refine ⟨none, ?_, hSame⟩
    rw [range?, number?_ofNat_append first hDigit]
    cases rest with
    | nil => rfl
    | cons c rest =>
        have hComma := (hRest c rfl).2
        simp [hComma]
  · refine ⟨some last, ?_, rfl⟩
    rw [List.append_assoc, List.cons_append, range?_pair first last hDigit]

/-- A head is read back, whatever its numbers are. -/
theorem normalHead?_written (action : Action) (oldFirst oldLast newFirst newLast : Nat) :
    normalHead? (normalRange oldFirst oldLast ++ action.mark :: normalRange newFirst newLast) =
      some (action, oldFirst, oldLast, newFirst, newLast) := by
  have hMark : ∀ c ∈ (action.mark :: normalRange newFirst newLast).head?,
      isDecimalDigit c = false ∧ c ≠ ',' := by
    rintro c ⟨⟩
    cases action <;> decide
  obtain ⟨oldSecond, hOld, hOldLast⟩ := range?_normalRange oldFirst oldLast hMark
  obtain ⟨newSecond, hNew, hNewLast⟩ := @range?_normalRange newFirst newLast [] (by simp)
  rw [List.append_nil] at hNew
  subst hOldLast hNewLast
  rw [normalHead?, hOld]
  cases action <;> simp [Action.mark, hNew]

/-- The lines of a side, each behind its mark. -/
def behind (mark : CodePoint) (lines : List Text) : List Text := lines.map (mark :: chr ' ' :: ·)

theorem head?_of_mem_behind {mark : CodePoint} {lines : List Text} {line : Text}
    (h : line ∈ behind mark lines) : (line.head? == some mark) = true := by
  obtain ⟨t, _, rfl⟩ := List.mem_map.mp h
  simp

/-- Lines that were written behind a mark are read back, up to one with another mark. -/
theorem marked_behind {mark : CodePoint} (lines : List Text) {rest : List Text}
    (hRest : ∀ line ∈ rest.head?, line.head? ≠ some mark) :
    marked mark (behind mark lines ++ rest) = lines := by
  rw [marked, List.takeWhile_append_of_pos fun line hLine => head?_of_mem_behind hLine]
  have hStop : rest.takeWhile (·.head? == some mark) = [] := by
    cases rest with
    | nil => rfl
    | cons line rest => simp [hRest line rfl]
  rw [hStop, List.append_nil, behind, List.map_map]
  exact List.map_id lines

/-- Behind the marked lines the reader goes on with the rest. -/
theorem afterMarked_behind {mark : CodePoint} (lines : List Text) {rest : List Text}
    (hRest : ∀ line ∈ rest.head?, line.head? ≠ some mark) :
    afterMarked mark (behind mark lines ++ rest) = rest := by
  rw [afterMarked, List.dropWhile_append_of_pos fun line hLine => head?_of_mem_behind hLine]
  cases rest with
  | nil => rfl
  | cons line rest => simp [hRest line rfl]

/-- What a change does that has these lines. -/
def actionOf (old new : List Text) : Action :=
  if new.isEmpty then .delete else if old.isEmpty then .add else .change

/-- A change of `old` to `new` behind so many lines on either side. -/
def changeAt (oldBefore newBefore : Nat) (old new : List Text) : Hunk :=
  .normal (actionOf old new) (oldBefore + min 1 old.length) (oldBefore + old.length)
    (newBefore + min 1 new.length) (newBefore + new.length) old new

def headAt (oldBefore newBefore : Nat) (old new : List Text) : Text :=
  normalRange (oldBefore + min 1 old.length) (oldBefore + old.length) ++ (actionOf old new).mark ::
    normalRange (newBefore + min 1 new.length) (newBefore + new.length)

/-- The lines of a change; a line divides the sides if both have lines. -/
def linesOf (old new : List Text) : List Text :=
  behind (chr '<') old ++ ((if old.isEmpty || new.isEmpty then [] else [[chr '-', chr '-', chr '-']]) ++ behind (chr '>') new)

theorem toSplice_changeAt (oldBefore newBefore : Nat) (old new : List Text) :
    (changeAt oldBefore newBefore old new).toSplice = ⟨oldBefore, old, newBefore, new⟩ := by
  simp only [changeAt, Hunk.toSplice, Splice.ofLines, indexOf_first]

/-- A line that begins with a digit. -/
def Numbered (line : Text) : Prop := ∃ c ∈ line.head?, c.isDigit = true

theorem Numbered.head?_ne {line : Text} (h : Numbered line) {c : CodePoint} (hc : c.isDigit = false) :
    line.head? ≠ some c := by
  obtain ⟨d, hd, hDigit⟩ := h
  intro hSame
  rw [hSame] at hd
  cases hd
  rw [hDigit] at hc
  cases hc

/-- A head begins with a number, also for a change of no lines. -/
theorem numbered_headAt (oldBefore newBefore : Nat) (old new : List Text) :
    Numbered (headAt oldBefore newBefore old new) := by
  have hRange (first last : Nat) (rest : Text) : Numbered (normalRange first last ++ rest) := by
    obtain ⟨c, digits, hDigits⟩ := List.exists_cons_of_ne_nil (show ofNat first ≠ [] by simp [ofNat])
    have hFirst : c.isDigit = true := isDigit_of_mem_ofNat (show c ∈ ofNat first by simp [hDigits])
    refine ⟨c, ?_, hFirst⟩
    rw [normalRange, hDigits]
    split <;> rfl
  exact hRange _ _ _

theorem head?_behind_append {new rest : List Text} (hRest : ∀ line ∈ rest.head?, Numbered line)
    {c : CodePoint} (hc : c.isDigit = false) (hMark : c ≠ '>') :
    ∀ line ∈ (behind (chr '>') new ++ rest).head?, line.head? ≠ some c := by
  cases new with
  | nil =>
      intro line hLine
      exact (hRest line hLine).head?_ne hc
  | cons t new =>
      rintro line ⟨⟩
      simpa using hMark.symm

/-- The line between the sides is passed over; where it is missing nothing is. -/
theorem tail_divider {new rest : List Text} (hRest : ∀ line ∈ rest.head?, Numbered line)
    (undivided : Bool) {lines : List Text}
    (hLines : lines = (if undivided then [] else [[chr '-', chr '-', chr '-']]) ++ (behind (chr '>') new ++ rest)) :
    (if lines.head? == some "---" then lines.tail else lines) = behind (chr '>') new ++ rest := by
  subst hLines
  cases undivided with
  | false => rfl
  | true =>
      rw [if_pos rfl, List.nil_append, if_neg]
      intro hHead
      exact @head?_behind_append new rest hRest (chr '-') (by decide) (by decide) _ (eq_of_beq hHead) rfl

/-- A head announces as many lines as the sides have. -/
theorem length_eq_announced (oldBefore newBefore : Nat) {old new : List Text}
    (hSome : old ≠ [] ∨ new ≠ []) :
    ((old.length : Int) = if actionOf old new = .add then 0
      else ((oldBefore + old.length : Nat) : Int) - (oldBefore + min 1 old.length : Nat) + 1) ∧
    ((new.length : Int) = if actionOf old new = .delete then 0
      else ((newBefore + new.length : Nat) : Int) - (newBefore + min 1 new.length : Nat) + 1) := by
  cases old with
  | nil =>
      cases new with
      | nil => simp at hSome
      | cons t new =>
          have hAction : actionOf [] (t :: new) = .add := rfl
          rw [hAction, List.length_cons]
          refine ⟨rfl, ?_⟩
          rw [if_neg (by decide)]
          omega
  | cons o old =>
      cases new with
      | nil =>
          have hAction : actionOf (o :: old) [] = .delete := rfl
          rw [hAction, List.length_cons]
          refine ⟨?_, rfl⟩
          rw [if_neg (by decide)]
          omega
      | cons t new =>
          have hAction : actionOf (o :: old) (t :: new) = .change := rfl
          rw [hAction, List.length_cons, List.length_cons, if_neg (by decide), if_neg (by decide)]
          omega

/-- Behind its head a change is read back from its lines, up to the next head. -/
theorem readNormal_linesOf (line : Text) (oldBefore newBefore : Nat) {old new : List Text}
    (hSome : old ≠ [] ∨ new ≠ []) {rest : List Text}
    (hRest : ∀ line ∈ rest.head?, Numbered line) :
    readNormal line (actionOf old new, oldBefore + min 1 old.length, oldBefore + old.length,
      newBefore + min 1 new.length, newBefore + new.length) (linesOf old new ++ rest) =
        .ok (changeAt oldBefore newBefore old new, rest) := by
  obtain ⟨lines, hLines⟩ : ∃ lines, lines =
    (if old.isEmpty || new.isEmpty then [] else [[chr '-', chr '-', chr '-']]) ++ (behind (chr '>') new ++ rest) := ⟨_, rfl⟩
  have hWhole : linesOf old new ++ rest = behind (chr '<') old ++ lines := by
    rw [hLines, linesOf, List.append_assoc, List.append_assoc]
  have hOld : ∀ line ∈ lines.head?, line.head? ≠ some (chr '<') := by
    rw [hLines]
    split
    · exact @head?_behind_append new rest hRest (chr '<') (by decide) (by decide)
    · rintro line ⟨⟩
      decide
  have hNew : ∀ line ∈ rest.head?, line.head? ≠ some (chr '>') :=
    fun line hLine => (hRest line hLine).head?_ne (by decide)
  -- A line of either side begins with its mark, so that none of them is taken for the divider.
  have hAfter := tail_divider hRest _ hLines
  simp only [readNormal, hWhole, marked_behind old hOld, afterMarked_behind old hOld, hAfter,
    marked_behind new hNew, afterMarked_behind new hNew]
  rw [if_pos (by simpa using length_eq_announced oldBefore newBefore hSome)]
  rfl

/-- A change is recognized by its head, and read with the lines that the head asks for. -/
theorem readItem_headAt (total oldBefore newBefore : Nat) {old new : List Text}
    (hSome : old ≠ [] ∨ new ≠ []) {rest : List Text}
    (hRest : ∀ line ∈ rest.head?, Numbered line) :
    readItem total (headAt oldBefore newBefore old new) (linesOf old new ++ rest) =
      .ok (.hunk (changeAt oldBefore newBefore old new), rest) := by
  have hHead : normalHead? (headAt oldBefore newBefore old new) = _ :=
    normalHead?_written (actionOf old new) (oldBefore + min 1 old.length) (oldBefore + old.length)
      (newBefore + min 1 new.length) (newBefore + new.length)
  rw [readItem_of_normalHead total hHead,
    readNormal_linesOf _ oldBefore newBefore hSome hRest]
  rfl

section Change

variable {m n : Nat} {edits : List Edit} {range : Diff.Range}

theorem placesRange_range' {before count : Nat} (h : count ≠ 0) :
    placesRange (List.range' before count) = normalRange (before + min 1 count) (before + count) := by
  obtain ⟨count, rfl⟩ := Nat.exists_eq_succ_of_ne_zero h
  have hHead : (List.range' before (count + 1)).headD 0 = before := rfl
  have hLast : (List.range' before (count + 1)).getLastD 0 = before + count := by
    rw [List.getLastD_eq_getLast?, List.getLast?_range']
    simp
  rw [placesRange, hHead, hLast]
  congr 1

theorem normalRange_self (first : Nat) : normalRange first first = ofNat first := if_pos rfl

/-- The head of a change from the places of its lines. -/
theorem headAt_places (oldBefore newBefore : Nat) {olds news : Nat} (hSome : olds ≠ 0 ∨ news ≠ 0)
    (a b : List Text) :
    headAt oldBefore newBefore ((List.range' oldBefore olds).map (lineAt a))
        ((List.range' newBefore news).map (lineAt b)) =
      if (List.range' newBefore news).isEmpty then
        placesRange (List.range' oldBefore olds) ++ chr 'd' :: ofNat newBefore
      else if (List.range' oldBefore olds).isEmpty then
        ofNat oldBefore ++ chr 'a' :: placesRange (List.range' newBefore news)
      else placesRange (List.range' oldBefore olds) ++ chr 'c' ::
        placesRange (List.range' newBefore news) := by
  cases olds with
  | zero =>
      cases news with
      | zero => simp at hSome
      | succ news =>
          rw [placesRange_range' news.succ_ne_zero, ← normalRange_self oldBefore]
          simp [headAt, actionOf, Action.mark, List.range'_succ]
  | succ olds =>
      rw [placesRange_range' olds.succ_ne_zero]
      cases news with
      | zero =>
          rw [← normalRange_self newBefore]
          simp [headAt, actionOf, Action.mark]
      | succ news =>
          rw [placesRange_range' news.succ_ne_zero]
          simp [headAt, actionOf, Action.mark, List.range'_succ]

/-- Where nothing is common, a selection of lines is known from its deletions and additions. -/
theorem filterMap_congr_changes {window : List Edit} (h : ∀ edit ∈ window, edit.isCommon = false)
    {α : Type} {f g : Edit → Option α} (hDelete : ∀ i blank, f (.delete i blank) = g (.delete i blank))
    (hAdd : ∀ j blank, f (.add j blank) = g (.add j blank)) : window.filterMap f = window.filterMap g := by
  apply List.filterMap_congr
  intro edit hMem
  have hChange := h edit hMem
  cases edit with
  | common i j => cases hChange
  | delete i blank => exact hDelete i blank
  | add j blank => exact hAdd j blank

theorem filterMap_deletes {window : List Edit} (h : ∀ edit ∈ window, edit.isCommon = false) :
    (window.filter Edit.isDelete).filterMap Edit.old? = window.filterMap Edit.old? := by
  rw [List.filterMap_filter]
  exact filterMap_congr_changes h (fun _ _ => rfl) fun _ _ => rfl

theorem filterMap_adds {window : List Edit} (h : ∀ edit ∈ window, edit.isCommon = false) :
    (window.filter Edit.isAdd).filterMap Edit.new? = window.filterMap Edit.new? := by
  rw [List.filterMap_filter]
  exact filterMap_congr_changes h (fun _ _ => rfl) fun _ _ => rfl

theorem filterMap_newText? {window : List Edit} (h : ∀ edit ∈ window, edit.isCommon = false)
    (a b : List Text) : window.filterMap (newText? a b) = (window.filterMap Edit.new?).map (lineAt b) := by
  rw [List.map_filterMap]
  exact filterMap_congr_changes h (fun _ _ => rfl) fun _ _ => rfl

/-- A range of changes takes lines from one of the texts at least. -/
theorem changed_ne_nil {window : List Edit} (h : ∀ edit ∈ window, edit.isCommon = false)
    (hWindow : window ≠ []) (a b : List Text) :
    window.filterMap (oldText? a) ≠ [] ∨ window.filterMap (newText? a b) ≠ [] := by
  obtain ⟨edit, rest, rfl⟩ := List.exists_cons_of_ne_nil hWindow
  have hChange := h edit (List.mem_cons_self ..)
  cases edit with
  | common i j => cases hChange
  | delete i blank => exact Or.inl (List.cons_ne_nil _ _)
  | add j blank => exact Or.inr (List.cons_ne_nil _ _)

/-- A change is written as its head and its lines. -/
theorem renderChange_eq (h : Covers m n edits) (hChanges : OnlyChanges edits range)
    (hSlice : range.slice edits ≠ []) (a b : List Text) :
    renderChange a b edits range =
      headAt (oldCount (edits.take range.start)) (newCount (edits.take range.start))
          ((range.slice edits).filterMap (oldText? a)) ((range.slice edits).filterMap (newText? a b)) ::
        linesOf ((range.slice edits).filterMap (oldText? a))
          ((range.slice edits).filterMap (newText? a b)) := by
  have hOnly := hChanges.mem_slice
  have hSome := changed_ne_nil hOnly hSlice a b
  rw [renderChange, filterMap_deletes hOnly, filterMap_adds hOnly, h.linesBefore_eq]
  rw [filterMap_oldText?, filterMap_newText? hOnly] at hSome ⊢
  rw [h.olds_slice, h.news_slice] at hSome ⊢
  rw [headAt_places _ _ (by simpa using hSome)]
  simp only [linesOf, behind, List.map_map, List.isEmpty_map, List.append_assoc, List.singleton_append]
  rfl

def normalOf (a b : List Text) (edits : List Edit) (range : Diff.Range) : Hunk :=
  changeAt (oldCount (edits.take range.start)) (newCount (edits.take range.start))
    ((range.slice edits).filterMap (oldText? a)) ((range.slice edits).filterMap (newText? a b))

theorem toSplice_normalOf (a b : List Text) (edits : List Edit) (range : Diff.Range) :
    (normalOf a b edits range).toSplice = spliceOf (oldText? a) (newText? a b) edits range := by
  rw [normalOf, toSplice_changeAt, spliceOf, length_filterMap_oldText?, length_filterMap_newText?]

end Change

/-- Line numbers do not end a line. -/
theorem ne_break_of_mem_normalRange {c : CodePoint} {first last : Nat} (h : c ∈ normalRange first last) :
    c ≠ '\n' ∧ c ≠ '\r' := by
  have hDigit (n : Nat) (hc : c ∈ ofNat n) : c ≠ '\n' ∧ c ≠ '\r' := by
    have hIs := isDigit_of_mem_ofNat hc
    constructor
    · rintro rfl
      cases hIs
    · rintro rfl
      cases hIs
  rw [normalRange] at h
  split at h
  · exact hDigit first h
  · rcases List.mem_append.mp h with h | h
    · exact hDigit first h
    · rcases List.mem_cons.mp h with rfl | h
      · decide
      · exact hDigit last h

theorem isLine_headAt (oldBefore newBefore : Nat) (old new : List Text) :
    IsLine (headAt oldBefore newBefore old new) := by
  apply isLine_of_forall
  intro c hc
  rcases List.mem_append.mp hc with hc | hc
  · exact ne_break_of_mem_normalRange hc
  · rcases List.mem_cons.mp hc with rfl | hc
    · cases actionOf old new <;> decide
    · exact ne_break_of_mem_normalRange hc

theorem isLine_behind {mark : CodePoint} (hBreak : mark ≠ '\n') (hReturn : mark ≠ '\r') {lines : List Text}
    (h : ∀ t ∈ lines, IsLine t) : ∀ t ∈ behind mark lines, IsLine t := by
  intro t ht
  obtain ⟨line, hLine, rfl⟩ := List.mem_map.mp ht
  exact ((h line hLine).cons (by decide) (by decide)).cons hBreak hReturn

theorem isLine_linesOf {old new : List Text} (hOld : ∀ t ∈ old, IsLine t)
    (hNew : ∀ t ∈ new, IsLine t) : ∀ t ∈ linesOf old new, IsLine t := by
  intro t ht
  rcases List.mem_append.mp ht with ht | ht
  · exact isLine_behind (by decide) (by decide) hOld t ht
  rcases List.mem_append.mp ht with ht | ht
  · split at ht
    · cases ht
    · rw [List.mem_singleton.mp ht]
      decide
  · exact isLine_behind (by decide) (by decide) hNew t ht

theorem isLine_oldText? {a : List Text} (hA : ∀ t ∈ a, IsLine t) (window : List Edit) :
    ∀ t ∈ window.filterMap (oldText? a), IsLine t := by
  intro t ht
  obtain ⟨edit, _, hText⟩ := List.mem_filterMap.mp ht
  obtain ⟨i, _, rfl⟩ := Option.map_eq_some_iff.mp hText
  exact isLine_lineAt hA i

theorem isLine_newText? {a b : List Text} (hA : ∀ t ∈ a, IsLine t) (hB : ∀ t ∈ b, IsLine t)
    (window : List Edit) : ∀ t ∈ window.filterMap (newText? a b), IsLine t := by
  intro t ht
  obtain ⟨edit, _, hText⟩ := List.mem_filterMap.mp ht
  cases edit with
  | common i j =>
      cases hText
      exact isLine_lineAt hA i
  | delete i blank => cases hText
  | add j blank =>
      cases hText
      exact isLine_lineAt hB j

/-- Written changes are read as one section without names that has these changes. -/
theorem parse_normal {a b : List Text} (hA : ∀ t ∈ a, IsLine t) (hB : ∀ t ∈ b, IsLine t)
    {edits : List Edit} (hCovers : Covers a.length b.length edits) {ranges : List Diff.Range}
    (hRanges : ranges ≠ [])
    (hChanges : ∀ range ∈ ranges, OnlyChanges edits range ∧ range.slice edits ≠ []) :
    parse (joinLines (ranges.flatMap (renderChange a b edits))) =
      .ok [⟨none, none, ranges.map (normalOf a b edits)⟩] := by
  have hWritten : ∀ range ∈ ranges, renderChange a b edits range = _ :=
    fun range hRange => renderChange_eq hCovers (hChanges range hRange).1 (hChanges range hRange).2 a b
  let lines := ranges.flatMap (renderChange a b edits)
  have hLines : ∀ t ∈ lines, IsLine t := by
    intro t ht
    obtain ⟨range, hRange, hMem⟩ := List.mem_flatMap.mp ht
    rw [hWritten range hRange] at hMem
    rcases List.mem_cons.mp hMem with rfl | hMem
    · exact isLine_headAt _ _ _ _
    · exact isLine_linesOf (isLine_oldText? hA _) (isLine_newText? hA hB _) t hMem
  have hLength : ranges.length ≤ lines.length := by
    apply length_le_flatMap
    intro range hRange
    rw [hWritten range hRange]
    exact List.cons_ne_nil _ _
  have hSome : lines ≠ [] := by
    rw [← List.length_pos_iff] at hRanges ⊢
    exact Nat.lt_of_lt_of_le hRanges hLength
  obtain ⟨left, _, hSections⟩ := @sectionsFrom_written _ lines.length Numbered
    (renderChange a b edits) (normalOf a b edits) ranges (by
      intro range hRange
      refine ⟨_, _, hWritten range hRange, numbered_headAt _ _ _ _, fun rest hRest => ?_⟩
      have hSides := changed_ne_nil (hChanges range hRange).1.mem_slice (hChanges range hRange).2 a b
      exact readItem_headAt _ _ _ hSides hRest)
    [] (by rintro line ⟨⟩) ⟨none, none, []⟩ lines.length hLength
  rw [List.append_nil] at hSections
  have hRead : sectionsFrom lines.length lines.length ⟨none, none, []⟩ lines =
      .ok [⟨none, none, ranges.map (normalOf a b edits)⟩] := by
    rw [hSections]
    cases left <;> simp [sectionsFrom, Section.kept, hRanges]
  rw [parse, patchLines_of_isLine hSome hLines]
  change (sectionsFrom lines.length lines.length _ lines >>= _) = _
  rw [hRead]
  rfl

/-- The difference of two lists in the normal form, read as a patch, turns each list into the
other, and no hunk is moved. -/
theorem normal_roundTrip {a b : List Text} (hDiffer : a ≠ b) (hA : ∀ t ∈ a, IsLine t)
    (hB : ∀ t ∈ b, IsLine t) :
    ∃ sections, parse (renderNormal a b (script a b)) = .ok sections ∧
      TurnsBothWays (joinSections sections).hunks a b := by
  have hScript := isScript_script a b
  have hSpaced := spaced_changes (script a b)
  have hHold := holdChanges_changes (script a b)
  have hChanges : ∀ range ∈ changes (script a b),
      OnlyChanges (script a b) range ∧ range.slice (script a b) ≠ [] := by
    intro range hRange
    refine ⟨onlyChanges_changes range hRange, ?_⟩
    obtain ⟨_, hStart, hStop⟩ := hSpaced.mem range hRange
    rw [← List.length_pos_iff, Range.slice, List.length_take, List.length_drop]
    omega
  have hParse := parse_normal hA hB hScript.toCovers (ranges_ne_nil hDiffer hScript hHold) hChanges
  refine ⟨[⟨none, none, (changes (script a b)).map (normalOf a b (script a b))⟩], ?_, ?_⟩
  · rw [renderNormal, reportedChanges_eq (isBlank_script a b)]
    exact hParse
  · rw [joinSections, List.flatMap_singleton]
    exact turnsBothWays_of_ranges hScript hSpaced hHold fun range _ => toSplice_normalOf a b _ range

/-- Lines that look like heads and marks, a change at the top and an addition at the end. -/
theorem normal_roundTrip_marks :
    ∃ sections, parse (renderNormal ["1c1", "---", "x"] ["> 2d1", "---", "x", "< y", ""]
      (script ["1c1", "---", "x"] ["> 2d1", "---", "x", "< y", ""])) = .ok sections ∧
      TurnsBothWays (joinSections sections).hunks ["1c1", "---", "x"]
        ["> 2d1", "---", "x", "< y", ""] :=
  normal_roundTrip (by decide) (by decide) (by decide)

end TreeShell.Patch
