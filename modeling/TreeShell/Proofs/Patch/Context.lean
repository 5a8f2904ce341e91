import TreeShell.Proofs.Diff.Shown
import TreeShell.Proofs.Patch.Normal
import TreeShell.Proofs.Patch.Unified

/-! The context form, written and read back. Both sides of a hunk are written one after the
other and end at the next head, which no line of a side can be taken for, since a space
stands behind its mark. A side without a change is left out and read as the lines of context
of the other. The main statement is `context_roundTrip`. -/
namespace TreeShell.Patch

open Text Diff

/-- The last line number in the head of a side; a side without lines repeats the first one. -/
def lastNumber (first count : Nat) : Nat := if count ≤ 1 then first else first + count - 1

/-- A range in a context head is written as in a normal one, by its first and its last number. -/
theorem contextRange_eq (first count : Nat) :
    contextRange first count = normalRange first (lastNumber first count) := by
  rw [contextRange, lastNumber]
  split
  · rw [normalRange, if_pos rfl]
  · rw [normalRange, if_neg (by omega)]

/-- The head of a side is read as it was written, whatever stands around its numbers. -/
theorem contextHead?_contextRange (mark : Text) {close : Text}
    (hClose : ∀ c ∈ close.head?, isDecimalDigit c = false ∧ c ≠ ',') (first count : Nat) :
    contextHead? mark close (mark ++ contextRange first count ++ close) =
      some (first, lastNumber first count) := by
  obtain ⟨second, hRange, hLast⟩ := range?_normalRange first (lastNumber first count) hClose
  have hEnd : dropStart? close close = some [] := by
    simpa using dropStart?_append close []
  rw [contextHead?, List.append_assoc, dropStart?_append, contextRange_eq]
  simp only [Option.bind_eq_bind, Option.bind_some, hRange, hEnd, hLast]
  rfl

/-- Both heads of a context hunk are read back. -/
theorem contextHead?_written (first count : Nat) :
    contextOldHead? ("*** " ++ contextRange first count ++ " ****") =
        some (first, lastNumber first count) ∧
      contextNewHead? ("--- " ++ contextRange first count ++ " ----") =
        some (first, lastNumber first count) := by
  constructor
  · exact contextHead?_contextRange _ (by simp; decide) first count
  · exact contextHead?_contextRange _ (by simp; decide) first count

/-- A line of one side of a hunk; a line of a change that both deletes and adds has a mark
of its own. -/
def writeLine (replaced : Bool) (line : HunkLine) : Text :=
  match line.kind with
  | .context => chr ' ' :: chr ' ' :: line.text
  | .delete => (if replaced then chr '!' else chr '-') :: chr ' ' :: line.text
  | .add => (if replaced then chr '!' else chr '+') :: chr ' ' :: line.text

/-- A line of a block is read back: its mark says whether it was common, and the block on which side
it stood. -/
theorem contextLine?_writeLine {changed : LineKind} {line : HunkLine}
    (h : line.kind = .context ∨ line.kind = changed) (hChanged : changed ≠ .context)
    (replaced : Bool) : contextLine? changed (writeLine replaced line) = some line := by
  obtain ⟨kind, text⟩ := line
  cases kind <;> cases replaced <;> cases changed <;>
    simp_all [writeLine, contextLine?, contextNewHead?, contextHead?, dropStart?, isContextSeparator,
      List.replicate]

/-- Lines that are read one by one are read as a block, up to a line that is none of them. -/
theorem contextBlock_append {changed : LineKind} {texts : List Text} {lines : List HunkLine}
    (h : List.Forall₂ (fun text line => contextLine? changed text = some line) texts lines)
    {rest : List Text} (hRest : ∀ line ∈ rest.head?, contextLine? changed line = none) :
    contextBlock changed (texts ++ rest) = (lines, rest) := by
  induction h with
  | nil =>
      cases rest with
      | nil => rfl
      | cons line rest => simp [contextBlock, hRest line rfl]
  | cons hLine _ ih => simp [contextBlock, hLine, ih]

/-- The old line of an edit, as a line of a hunk. -/
def oldLine? (a : List Text) : Edit → Option HunkLine
  | .common i _ => some ⟨.context, lineAt a i⟩
  | .delete i _ => some ⟨.delete, lineAt a i⟩
  | .add .. => none

/-- The new line of an edit, as a line of a hunk. -/
def newLine? (b : List Text) : Edit → Option HunkLine
  | .common _ j => some ⟨.context, lineAt b j⟩
  | .delete .. => none
  | .add j _ => some ⟨.add, lineAt b j⟩

/-- One side of a window of edits, written out; `replaced` tells the places with a mark of
their own. -/
def writeSide (side : Edit → Option HunkLine) (replaced : Nat → Bool) (window : List (Edit × Nat)) :
    List Text :=
  window.filterMap fun (edit, index) => (side edit).map (writeLine (replaced index))

/-- The old lines are written if one of them is deleted, and omitted otherwise. -/
theorem renderContextOld_eq (a : List Text) (window : List Edit) :
    renderContextOld a window = if window.any Edit.isDelete then
      writeSide (oldLine? a) (isReplacement window) window.zipIdx else [] := by
  rw [renderContextOld, writeSide]
  congr 2
  funext ⟨edit, index⟩
  cases edit <;> rfl

/-- The new lines are written if one of them is added, and omitted otherwise. -/
theorem renderContextNew_eq (b : List Text) (window : List Edit) :
    renderContextNew b window = if window.any Edit.isAdd then
      writeSide (newLine? b) (isReplacement window) window.zipIdx else [] := by
  rw [renderContextNew, writeSide]
  congr 2
  funext ⟨edit, index⟩
  cases edit <;> rfl

theorem writeSide_cons (side : Edit → Option HunkLine) (replaced : Nat → Bool) (edit : Edit)
    (index : Nat) (window : List (Edit × Nat)) :
    writeSide side replaced ((edit, index) :: window) =
      ((side edit).map (writeLine (replaced index))).toList ++ writeSide side replaced window := by
  cases hLine : side edit <;> simp [writeSide, hLine]

/-- Each line of a side is written so that the reader takes it as what it was: common, changed or
replaced. -/
theorem forall₂_writeSide {side : Edit → Option HunkLine} {changed : LineKind}
    (hSide : ∀ edit, ∀ line ∈ side edit, line.kind = .context ∨ line.kind = changed)
    (hChanged : changed ≠ .context) (replaced : Nat → Bool) (window : List Edit) (index : Nat) :
    List.Forall₂ (fun text line => contextLine? changed text = some line)
      (writeSide side replaced (window.zipIdx index)) (window.filterMap side) := by
  induction window generalizing index with
  | nil => exact .nil
  | cons edit window ih =>
      have hRest := ih (index + 1)
      rw [List.zipIdx_cons, writeSide_cons]
      cases hLine : side edit with
      | none =>
          rw [List.filterMap_cons_none hLine]
          exact hRest
      | some line =>
          rw [List.filterMap_cons_some hLine]
          exact .cons (contextLine?_writeLine (hSide edit line hLine) hChanged (replaced index)) hRest

theorem kind_of_oldLine? {a : List Text} (edit : Edit) :
    ∀ line ∈ oldLine? a edit, line.kind = .context ∨ line.kind = .delete := by
  cases edit <;> simp [oldLine?]

theorem kind_of_newLine? {b : List Text} (edit : Edit) :
    ∀ line ∈ newLine? b edit, line.kind = .context ∨ line.kind = .add := by
  cases edit <;> simp [newLine?]

/-- The lines of a side, none when the side has no change. -/
def block (side : Edit → Option HunkLine) (isChange : Edit → Bool) (window : List Edit) :
    List HunkLine :=
  if window.any isChange then window.filterMap side else []

/-- The block of old lines is read back, up to a line that is none of it. -/
theorem contextBlock_old (a : List Text) (window : List Edit) {rest : List Text}
    (hRest : ∀ line ∈ rest.head?, contextLine? .delete line = none) :
    contextBlock .delete (renderContextOld a window ++ rest) =
      (block (oldLine? a) Edit.isDelete window, rest) := by
  rw [renderContextOld_eq, block]
  split
  · exact contextBlock_append (forall₂_writeSide kind_of_oldLine? (by decide) _ window 0) hRest
  · exact contextBlock_append .nil hRest

/-- The block of new lines is read back, up to a line that is none of it. -/
theorem contextBlock_new (b : List Text) (window : List Edit) {rest : List Text}
    (hRest : ∀ line ∈ rest.head?, contextLine? .add line = none) :
    contextBlock .add (renderContextNew b window ++ rest) =
      (block (newLine? b) Edit.isAdd window, rest) := by
  rw [renderContextNew_eq, block]
  split
  · exact contextBlock_append (forall₂_writeSide kind_of_newLine? (by decide) _ window 0) hRest
  · exact contextBlock_append .nil hRest

/-- The hunk that a range of edits is read as. -/
def contextOf (a b : List Text) (edits : List Edit) (range : Diff.Range) : Hunk :=
  let head := Diff.Hunk.covering edits range
  .context head.oldFirst (lastNumber head.oldFirst head.oldCount) head.newFirst
    (lastNumber head.newFirst head.newCount) (block (oldLine? a) Edit.isDelete (range.slice edits))
    (block (newLine? b) Edit.isAdd (range.slice edits))

section Sides

variable {a b : List Text} {edits : List Edit}

theorem map_text_oldLine? (a : List Text) (window : List Edit) :
    (window.filterMap (oldLine? a)).map HunkLine.text = window.filterMap (oldText? a) := by
  rw [List.map_filterMap]
  congr 1
  funext edit
  cases edit <;> rfl

/-- The new lines of edits of a script; those that stay are the old ones. -/
theorem map_text_newLine? (h : IsScript a b edits) {window : List Edit} (hWindow : window ⊆ edits) :
    (window.filterMap (newLine? b)).map HunkLine.text = window.filterMap (newText? a b) := by
  rw [List.map_filterMap]
  apply List.filterMap_congr
  intro edit hMem
  cases edit with
  | common i j =>
      have hSame : lineAt b j = lineAt a i := by
        simp only [lineAt, List.getD_eq_getElem?_getD, h.common i j (hWindow hMem)]
      exact congrArg some hSame
  | delete i blank => rfl
  | add j blank => rfl

/-- A side that is left out has the lines of context of the other one. -/
theorem contextOnly_filterMap {side : Edit → Option HunkLine} {other : Edit → Option Text}
    {window : List Edit}
    (hCommon : ∀ edit ∈ window, edit.isCommon = true →
      ∃ line, side edit = some line ∧ line.kind = .context ∧ other edit = some line.text)
    (hChange : ∀ edit ∈ window, edit.isCommon = false →
      other edit = none ∧ ∀ line ∈ side edit, line.kind ≠ .context) :
    (contextOnly (window.filterMap side)).map HunkLine.text = window.filterMap other := by
  rw [contextOnly, List.filter_filterMap, List.map_filterMap]
  apply List.filterMap_congr
  intro edit hMem
  cases hKind : edit.isCommon with
  | true =>
      obtain ⟨line, hLine, hContext, hOther⟩ := hCommon edit hMem hKind
      simp [hLine, hContext, hOther]
  | false =>
      obtain ⟨hOther, hLines⟩ := hChange edit hMem hKind
      cases hLine : side edit with
      | none => simp [hOther]
      | some line => simp [hOther, hLines line hLine]


/-- A side is left out exactly if it shows no change of its own. -/
theorem isEmpty_block {side : Edit → Option HunkLine} {isChange : Edit → Bool}
    (hSide : ∀ edit, isChange edit = true → (side edit).isSome = true) (window : List Edit) :
    (block side isChange window).isEmpty = !window.any isChange := by
  rw [block]
  split
  · rename_i hAny
    obtain ⟨edit, hMem, hEdit⟩ := List.any_eq_true.mp hAny
    obtain ⟨line, hLine⟩ := Option.isSome_iff_exists.mp (hSide edit hEdit)
    have hFound : line ∈ window.filterMap side := List.mem_filterMap.mpr ⟨edit, hMem, hLine⟩
    rw [hAny, Bool.not_true, List.isEmpty_eq_false_iff]
    exact List.ne_nil_of_mem hFound
  · rename_i hAny
    simp [hAny]

theorem isSome_oldLine? (a : List Text) :
    ∀ edit : Edit, edit.isDelete = true → (oldLine? a edit).isSome = true
  | .delete .., _ => rfl

theorem isSome_newLine? (b : List Text) :
    ∀ edit : Edit, edit.isAdd = true → (newLine? b edit).isSome = true
  | .add .., _ => rfl

/-- The texts of both sides of a window, whichever of them is left out. -/
theorem sides_of_blocks (h : IsScript a b edits) {window : List Edit} (hWindow : window ⊆ edits)
    (hChange : ∃ edit ∈ window, edit.isCommon = false) :
    let old := block (oldLine? a) Edit.isDelete window
    let new := block (newLine? b) Edit.isAdd window
    let old := if old.isEmpty then contextOnly new else old
    let new := if new.isEmpty then contextOnly old else new
    old.map HunkLine.text = window.filterMap (oldText? a) ∧
      new.map HunkLine.text = window.filterMap (newText? a b) := by
  have hOldEmpty := isEmpty_block (isSome_oldLine? a) window
  have hNewEmpty := isEmpty_block (isSome_newLine? b) window
  have hSame : ∀ i j, Edit.common i j ∈ window → lineAt b j = lineAt a i := by
    intro i j hMem
    simp only [lineAt, List.getD_eq_getElem?_getD, h.common i j (hWindow hMem)]
  dsimp only
  rw [hOldEmpty, hNewEmpty]
  cases hDelete : window.any Edit.isDelete with
  | true =>
      have hOld : block (oldLine? a) Edit.isDelete window = window.filterMap (oldLine? a) :=
        if_pos hDelete
      refine ⟨by rw [hOld]; exact map_text_oldLine? a window, ?_⟩
      cases hAdd : window.any Edit.isAdd with
      | true =>
          have hNew : block (newLine? b) Edit.isAdd window = window.filterMap (newLine? b) :=
            if_pos hAdd
          rw [hNew]
          exact map_text_newLine? h hWindow
      | false =>
          have hNoAdd := List.any_eq_false.mp hAdd
          rw [hOld]
          apply contextOnly_filterMap
          · intro edit _ hCommon
            cases edit with
            | common i j => exact ⟨_, rfl, rfl, rfl⟩
            | delete i blank => cases hCommon
            | add j blank => cases hCommon
          · intro edit hMem hKind
            cases edit with
            | common i j => cases hKind
            | delete i blank => exact ⟨rfl, by simp [oldLine?]⟩
            | add j blank => exact absurd rfl (hNoAdd _ hMem)
  | false =>
      have hNoDelete := List.any_eq_false.mp hDelete
      cases hAdd : window.any Edit.isAdd with
      | true =>
          have hNew : block (newLine? b) Edit.isAdd window = window.filterMap (newLine? b) :=
            if_pos hAdd
          rw [hNew]
          refine ⟨?_, map_text_newLine? h hWindow⟩
          apply contextOnly_filterMap
          · intro edit hMem hCommon
            cases edit with
            | common i j => exact ⟨_, rfl, rfl, congrArg some (hSame i j hMem).symm⟩
            | delete i blank => cases hCommon
            | add j blank => cases hCommon
          · intro edit hMem hKind
            cases edit with
            | common i j => cases hKind
            | delete i blank => exact absurd rfl (hNoDelete _ hMem)
            | add j blank => exact ⟨rfl, by simp [newLine?]⟩
      | false =>
          obtain ⟨edit, hMem, hKind⟩ := hChange
          cases edit with
          | common i j => cases hKind
          | delete i blank => exact absurd rfl (hNoDelete _ hMem)
          | add j blank => exact absurd rfl (List.any_eq_false.mp hAdd _ hMem)

/-- A hunk stands for the replacement of its range, also when one of its sides is left out. -/
theorem toSplice_contextOf (h : IsScript a b edits) {range : Diff.Range}
    (hChange : ∃ edit ∈ range.slice edits, edit.isCommon = false) :
    (contextOf a b edits range).toSplice = spliceOf (oldText? a) (newText? a b) edits range := by
  have hSlice : range.slice edits ⊆ edits :=
    List.Subset.trans (List.take_sublist _ _).subset (List.drop_sublist _ _).subset
  obtain ⟨hOld, hNew⟩ := sides_of_blocks h hSlice hChange
  rw [contextOf, Hunk.toSplice, Splice.ofLines, hOld, hNew, h.covering_eq, spliceOf]
  simp only [← length_filterMap_oldText? a, ← length_filterMap_newText? a b, indexOf_first]

end Sides

theorem contextLine?_newHead (changed : LineKind) (first count : Nat) :
    contextLine? changed ("--- " ++ contextRange first count ++ " ----") = none := by
  have hHead := (contextHead?_written first count).2
  simp only [contextLine?, hHead, Option.isSome_some, Bool.true_or, if_true]

theorem contextLine?_separator (changed : LineKind) :
    contextLine? changed (List.replicate 15 (chr '*')) = none := by
  cases changed <;> decide

/-- Behind the heads the two blocks of a hunk are read back, omitted ones included. -/
theorem readContext_written (a b : List Text) (edits : List Edit) (range : Diff.Range) (total : Nat)
    {rest : List Text} (hRest : ∀ line ∈ rest.head?, line = List.replicate 15 (chr '*')) :
    let head := Diff.Hunk.covering edits range
    readContext total (head.oldFirst, lastNumber head.oldFirst head.oldCount)
      (renderContextOld a (range.slice edits) ++
        (("--- " ++ contextRange head.newFirst head.newCount ++ " ----") ::
          (renderContextNew b (range.slice edits) ++ rest))) =
      .ok (contextOf a b edits range, rest) := by
  intro head
  have hOld := @contextBlock_old a (range.slice edits)
    (("--- " ++ contextRange head.newFirst head.newCount ++ " ----") ::
      (renderContextNew b (range.slice edits) ++ rest))
    (by rintro line ⟨⟩; exact contextLine?_newHead .delete _ _)
  have hNew := @contextBlock_new b (range.slice edits) rest (by
    intro line hLine
    rw [hRest line hLine]
    exact contextLine?_separator .add)
  have hHead := (contextHead?_written head.newFirst head.newCount).2
  simp only [readContext, hOld, List.headD_cons, hHead, List.tail_cons, hNew]
  rfl

/-- From its row of stars to the next one a hunk is read as it was written. -/
theorem readItem_contextHunk (a b : List Text) (edits : List Edit) (range : Diff.Range) (total : Nat)
    {rest : List Text} (hRest : ∀ line ∈ rest.head?, line = List.replicate 15 (chr '*')) :
    let head := Diff.Hunk.covering edits range
    readItem total (List.replicate 15 (chr '*'))
      (("*** " ++ contextRange head.oldFirst head.oldCount ++ " ****") ::
        (renderContextOld a (range.slice edits) ++
          (("--- " ++ contextRange head.newFirst head.newCount ++ " ----") ::
            (renderContextNew b (range.slice edits) ++ rest)))) =
      .ok (.hunk (contextOf a b edits range), rest) := by
  intro head
  have hSeparator : isContextSeparator (List.replicate 15 (chr '*')) = true := by decide
  have hHead := (contextHead?_written head.oldFirst head.oldCount).1
  have hBody : readContext total (head.oldFirst, lastNumber head.oldFirst head.oldCount) _ = .ok _ :=
    readContext_written a b edits range total hRest
  refine (@readItem_of_contextHead total _ _ (_ :: _) hSeparator hHead).trans ?_
  rw [List.tail_cons, hBody]
  rfl

/-- The two lines of names before the hunks begin a section. They are passed over when the
first one looks like the head of a side. -/
theorem sectionsFrom_contextNames (total bound : Nat) (file1 file2 : Text) {rest : List Text}
    (hRest : ∀ line ∈ rest.head?, line = List.replicate 15 (chr '*')) :
    ∃ source target left, bound ≤ left ∧
      sectionsFrom total (bound + 2) ⟨none, none, []⟩ (("*** " ++ file1) :: ("--- " ++ file2) :: rest) =
        sectionsFrom total left ⟨source, target, []⟩ rest := by
  cases hHead : contextOldHead? ("*** " ++ file1) with
  | none =>
      have hNames : readItem total ("*** " ++ file1) (("--- " ++ file2) :: rest) =
          .ok (.names (fileName ("*** " ++ file1)) (fileName ("--- " ++ file2)), rest) := by
        simp only [Text.ofString_eq, String.reduceToList, List.map_cons, List.map_nil, List.cons_append,
          List.nil_append] at hHead
        simp [readItem, unifiedHead?, dropStart?, isContextSeparator, List.replicate, hHead]
      refine ⟨some (fileName ("*** " ++ file1)), some (fileName ("--- " ++ file2)), bound + 1,
        Nat.le_succ bound, ?_⟩
      rw [sectionsFrom_of_names hNames]
      exact congrFun Except.map_id _
  | some head =>
      have hFirst : readItem total ("*** " ++ file1) (("--- " ++ file2) :: rest) =
          .ok (.nothing, ("--- " ++ file2) :: rest) := by
        have hNormal := @normalHead?_of_head? (chr '*' :: chr '*' :: chr '*' :: chr ' ' :: file1) (chr '*') rfl (by decide)
        simp only [Text.ofString_eq, String.reduceToList, List.map_cons, List.map_nil, List.cons_append,
          List.nil_append] at hHead
        simp [readItem, unifiedHead?, dropStart?, isContextSeparator, List.replicate, hHead, hNormal]
      have hFollowing : ¬ [chr '+', chr '+', chr '+', chr ' '] <+: rest.head?.getD [] := by
        cases rest with
        | nil => decide
        | cons line rest =>
            rw [List.head?_cons, Option.getD_some, hRest line rfl]
            decide
      have hSecond : readItem total ("--- " ++ file2) rest = .ok (.nothing, rest) := by
        have hNormal := @normalHead?_of_head? (chr '-' :: chr '-' :: chr '-' :: chr ' ' :: file2) (chr '-') rfl (by decide)
        simp [readItem, unifiedHead?, dropStart?, isContextSeparator, List.replicate, hFollowing, hNormal]
      refine ⟨none, none, bound, Nat.le_refl bound, ?_⟩
      rw [sectionsFrom_of_nothing hFirst, sectionsFrom_of_nothing hSecond]

theorem isLine_writeLine {line : HunkLine} (h : IsLine line.text) (replaced : Bool) :
    IsLine (writeLine replaced line) := by
  have hText : IsLine (chr ' ' :: line.text) := h.cons (by decide) (by decide)
  rw [writeLine]
  split
  · exact hText.cons (by decide) (by decide)
  · cases replaced <;> exact hText.cons (by decide) (by decide)
  · cases replaced <;> exact hText.cons (by decide) (by decide)

theorem isLine_writeSide {side : Edit → Option HunkLine}
    (h : ∀ edit, ∀ line ∈ side edit, IsLine line.text) (replaced : Nat → Bool)
    (window : List (Edit × Nat)) : ∀ t ∈ writeSide side replaced window, IsLine t := by
  intro t ht
  obtain ⟨⟨edit, index⟩, _, hText⟩ := List.mem_filterMap.mp ht
  obtain ⟨line, hLine, rfl⟩ := Option.map_eq_some_iff.mp hText
  exact isLine_writeLine (h edit line hLine) (replaced index)

theorem isLine_contextHead (mark close : Text) (hMark : ∀ c ∈ mark, c ≠ '\n' ∧ c ≠ '\r')
    (hClose : ∀ c ∈ close, c ≠ '\n' ∧ c ≠ '\r') (first count : Nat) :
    IsLine (mark ++ contextRange first count ++ close) := by
  apply isLine_of_forall
  intro c hc
  rcases List.mem_append.mp hc with hc | hc
  · rcases List.mem_append.mp hc with hc | hc
    · exact hMark c hc
    · rw [contextRange_eq] at hc
      exact ne_break_of_mem_normalRange hc
  · exact hClose c hc

/-- What is written of a hunk has no end of line inside of a line. -/
theorem isLine_renderContextHunk {a b : List Text} (hA : ∀ t ∈ a, IsLine t) (hB : ∀ t ∈ b, IsLine t)
    (edits : List Edit) (hunk : Diff.Hunk) : ∀ t ∈ renderContextHunk a b edits hunk, IsLine t := by
  have hOld : ∀ edit, ∀ line ∈ oldLine? a edit, IsLine line.text := by
    intro edit line hLine
    cases edit <;> cases hLine <;> exact isLine_lineAt hA _
  have hNew : ∀ edit, ∀ line ∈ newLine? b edit, IsLine line.text := by
    intro edit line hLine
    cases edit <;> cases hLine <;> exact isLine_lineAt hB _
  have hSide {side : Edit → Option HunkLine} (hLines : ∀ edit, ∀ line ∈ side edit, IsLine line.text)
      (c : Bool) (window : List Edit) : ∀ t ∈ if c then
        writeSide side (isReplacement window) window.zipIdx else [], IsLine t := by
    cases c with
    | false => simp
    | true => exact isLine_writeSide hLines _ _
  intro t ht
  rw [renderContextHunk, renderContextOld_eq, renderContextNew_eq] at ht
  rcases List.mem_append.mp ht with ht | ht
  · rcases List.mem_append.mp ht with ht | ht
    · rcases List.mem_append.mp ht with ht | ht
      · rcases List.mem_pair.mp ht with rfl | rfl
        · decide
        · exact isLine_contextHead _ _ (by simp) (by simp) _ _
      · exact hSide hOld _ _ t ht
    · rw [List.mem_singleton.mp ht]
      exact isLine_contextHead _ _ (by simp) (by simp) _ _
  · exact hSide hNew _ _ t ht

/-- What is written of a hunk: the row of stars, a head and the block of each side. -/
theorem renderContextHunk_covering (a b : List Text) (edits : List Edit) (range : Diff.Range) :
    let head := Diff.Hunk.covering edits range
    renderContextHunk a b edits head = List.replicate 15 (chr '*') ::
      ("*** " ++ contextRange head.oldFirst head.oldCount ++ " ****") ::
        (renderContextOld a (range.slice edits) ++
          ("--- " ++ contextRange head.newFirst head.newCount ++ " ----") ::
            renderContextNew b (range.slice edits)) := by
  intro head
  have hRange : head.range = range := rfl
  rw [renderContextHunk.eq_1, hRange, List.append_assoc, List.append_assoc]
  rfl

/-- The written form of hunks is read as one section with these hunks. -/
theorem parse_context {a b : List Text} (hA : ∀ t ∈ a, IsLine t) (hB : ∀ t ∈ b, IsLine t)
    (edits : List Edit) {ranges : List Diff.Range} (hRanges : ranges ≠ []) {file1 file2 : Text}
    (hFile1 : chr '\n' ∉ file1) (hFile2 : chr '\n' ∉ file2) :
    ∃ source target, parse (joinLines (("*** " ++ file1) :: ("--- " ++ file2) ::
      (ranges.map (Diff.Hunk.covering edits)).flatMap (renderContextHunk a b edits))) =
        .ok [⟨source, target, ranges.map (contextOf a b edits)⟩] := by
  let body := (ranges.map (Diff.Hunk.covering edits)).flatMap (renderContextHunk a b edits)
  have hBody : ∀ t ∈ body, IsLine t := by
    intro t ht
    obtain ⟨hunk, _, hMem⟩ := List.mem_flatMap.mp ht
    exact isLine_renderContextHunk hA hB edits hunk t hMem
  obtain ⟨name1, name2, hLines⟩ := @patchLines_named "*** " "--- " (by decide) (by decide)
    file1 file2 hFile1 hFile2 body hBody
  have hLength : ranges.length ≤ body.length := by
    change _ ≤ ((ranges.map (Diff.Hunk.covering edits)).flatMap (renderContextHunk a b edits)).length
    rw [List.flatMap_map]
    apply length_le_flatMap
    intro range _
    exact List.cons_ne_nil _ _
  have hFirst : ∀ line ∈ body.head?, line = List.replicate 15 (chr '*') := by
    cases ranges with
    | nil => exact absurd rfl hRanges
    | cons range ranges =>
        rintro line ⟨⟩
        rfl
  let total := body.length + 2
  obtain ⟨source, target, bound, hBound, hNames⟩ :=
    sectionsFrom_contextNames total body.length name1 name2 hFirst
  obtain ⟨left, _, hSections⟩ := @sectionsFrom_written _ total (· = List.replicate 15 (chr '*'))
    (fun range => renderContextHunk a b edits (Diff.Hunk.covering edits range)) (contextOf a b edits)
    ranges (by
      intro range _
      refine ⟨_, _, renderContextHunk_covering a b edits range, rfl, fun rest hRest => ?_⟩
      rw [List.cons_append, List.append_assoc (renderContextOld a (range.slice edits)),
        List.cons_append]
      exact readItem_contextHunk a b edits range total hRest)
    [] (by rintro line ⟨⟩) ⟨source, target, []⟩ bound (Nat.le_trans hLength hBound)
  refine ⟨source, target, ?_⟩
  have hRead : sectionsFrom total total ⟨none, none, []⟩
      (("*** " ++ name1) :: ("--- " ++ name2) :: body) =
        .ok [⟨source, target, ranges.map (contextOf a b edits)⟩] := by
    rw [List.append_nil, ← List.flatMap_map] at hSections
    rw [hNames, hSections]
    cases left <;> simp [sectionsFrom, Section.kept, hRanges]
  rw [parse, hLines]
  change (sectionsFrom total total _ _ >>= _) = _
  rw [hRead]
  rfl

/-- The difference of two lists in the context form, read as a patch, turns each list into the
other, and no hunk is moved. -/
theorem context_roundTrip {a b : List Text} (hDiffer : a ≠ b) (hA : ∀ t ∈ a, IsLine t)
    (hB : ∀ t ∈ b, IsLine t) (context : Int) {file1 file2 : Text} (hFile1 : chr '\n' ∉ file1)
    (hFile2 : chr '\n' ∉ file2) :
    ∃ sections, parse (renderContext a b (script a b) file1 file2 context) = .ok sections ∧
      TurnsBothWays (joinSections sections).hunks a b := by
  have hScript := isScript_script a b
  obtain ⟨ranges, hHunks, hShown⟩ := hunks_eq_map_shown (script a b) context
  have hHold := hShown.holdChanges (isBlank_script a b)
  have hRanges := ranges_ne_nil hDiffer hScript hHold
  obtain ⟨source, target, hParse⟩ := parse_context hA hB (script a b) hRanges hFile1 hFile2
  refine ⟨[⟨source, target, ranges.map (contextOf a b (script a b))⟩], ?_, ?_⟩
  · rw [renderContext, hHunks]
    cases ranges with
    | nil => exact absurd rfl hRanges
    | cons range ranges => exact hParse
  · rw [joinSections, List.flatMap_singleton]
    exact turnsBothWays_of_ranges hScript hShown.spaced hHold fun range hRange =>
      toSplice_contextOf hScript (hShown.exists_change hRange)

/-- Lines that look like heads, a deletion alone and an addition alone, so that each side is
left out once. -/
theorem context_roundTrip_marks :
    let a : List Text := ["*** 1 ****", "x", "", "-- 2 ----"]
    let b : List Text := ["x", "", "-- 2 ----", "! y"]
    ∃ sections, parse (renderContext a b (script a b) "1 ****" "new" 1) = .ok sections ∧
      TurnsBothWays (joinSections sections).hunks a b :=
  context_roundTrip (by decide) (by decide) (by decide) 1 (by decide) (by decide)

end TreeShell.Patch
