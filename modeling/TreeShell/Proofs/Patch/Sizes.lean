import TreeShell.Proofs.Patch.Normal

/-! How many lines a hunk has and how many its head announces. The unified form is read by the
numbers in its head and the normal form is compared with them, so that a body of another size is
refused. The numbers of the context form are compared with nothing. The main statement is
`parse_sizes`. -/
namespace TreeShell.Patch

open Text

/-- The numbers of old and new lines that the head of a hunk announces. In the context form a
single number is read as one line, although an empty side is written with one number too. -/
def Hunk.announced : Hunk → Int × Int
  | .unified _ oldCount _ newCount _ => (oldCount, newCount)
  | .normal action oldStart oldEnd newStart newEnd _ _ =>
    (if action = .add then 0 else oldEnd - oldStart + 1,
      if action = .delete then 0 else newEnd - newStart + 1)
  | .context oldStart oldEnd newStart newEnd _ _ => (oldEnd - oldStart + 1, newEnd - newStart + 1)

/-- The numbers of old and new lines that a hunk stands for. -/
def Hunk.sizes (hunk : Hunk) : Int × Int :=
  (hunk.toSplice.oldLines.length, hunk.toSplice.newLines.length)

/-- Whether a hunk is in the context form. -/
def Hunk.isContext : Hunk → Bool
  | .context .. => true
  | _ => false

section Body

/-- The line of a hunk that a line of a body in the unified form is; an empty line is one of
context. -/
def bodyLine? (line : Text) : Option HunkLine :=
  match line.headD (chr ' ') with
  | ' ' => some ⟨.context, line.drop 1⟩
  | '-' => some ⟨.delete, line.drop 1⟩
  | '+' => some ⟨.add, line.drop 1⟩
  | _ => none

/-- The numbers of old and new lines left after a line, if it stands on sides that have some. -/
def LineKind.left? : LineKind → (old new : Nat) → Option (Nat × Nat)
  | .context, old + 1, new + 1 => some (old, new)
  | .delete, old + 1, new => some (old, new)
  | .add, old, new + 1 => some (old, new)
  | _, _, _ => none

/-- Lines that are a body of the unified form with just so many old and new lines. Remarks may
stand among them. -/
structure Fills (old new : Nat) (body : List Text) : Prop where
  marked : ∀ line ∈ body, isRemark line = true ∨ (bodyLine? line).isSome
  olds : (textsWithout .add (body.filterMap bodyLine?)).length = old
  news : (textsWithout .delete (body.filterMap bodyLine?)).length = new

theorem fills_nil_iff {old new : Nat} : Fills old new [] ↔ old = 0 ∧ new = 0 :=
  ⟨fun h => ⟨h.olds.symm, h.news.symm⟩, fun h => ⟨by simp, h.1.symm, h.2.symm⟩⟩

theorem bodyLine?_of_isRemark {line : Text} (h : isRemark line = true) : bodyLine? line = none := by
  cases line with
  | nil => cases h
  | cons c line =>
      have hMark : c = '\\' := by simpa [isRemark] using h
      rw [hMark]
      rfl

/-- A remark takes no place, so it may stand anywhere in a body. -/
theorem fills_remark_iff {line : Text} (h : isRemark line = true) {old new : Nat}
    {body : List Text} : Fills old new (line :: body) ↔ Fills old new body := by
  have hSame : (line :: body).filterMap bodyLine? = body.filterMap bodyLine? :=
    List.filterMap_cons_none (bodyLine?_of_isRemark h)
  constructor
  · intro hFills
    exact ⟨fun other hMem => hFills.marked other (List.mem_cons_of_mem _ hMem),
      hSame ▸ hFills.olds, hSame ▸ hFills.news⟩
  · intro hFills
    refine ⟨?_, hSame ▸ hFills.olds, hSame ▸ hFills.news⟩
    simpa [h] using hFills.marked

/-- The numbers of lines left say how many lines the rest of a body has. -/
theorem LineKind.left?_eq_some_iff {kind : LineKind} {old new oldLeft newLeft : Nat} :
    kind.left? old new = some (oldLeft, newLeft) ↔
      old = oldLeft + (if kind = .add then 0 else 1) ∧
        new = newLeft + (if kind = .delete then 0 else 1) := by
  cases kind <;> cases old <;> cases new <;> simp [LineKind.left?]

/-- A line of a body fills as many places as its kind takes on either side, and the rest of the body
fills what is left. -/
theorem fills_cons_iff {line : Text} {found : HunkLine} (h : bodyLine? line = some found)
    {old new : Nat} {body : List Text} :
    Fills old new (line :: body) ↔
      ∃ oldLeft newLeft, found.kind.left? old new = some (oldLeft, newLeft) ∧
        Fills oldLeft newLeft body := by
  have hCons : (line :: body).filterMap bodyLine? = found :: body.filterMap bodyLine? :=
    List.filterMap_cons_some h
  have hLength (kind : LineKind) (lines : List HunkLine) :
      (textsWithout kind (found :: lines)).length =
        (textsWithout kind lines).length + if found.kind = kind then 0 else 1 := by
    by_cases hKind : found.kind = kind <;> simp [textsWithout, hKind]
  simp only [LineKind.left?_eq_some_iff]
  constructor
  · intro hFills
    refine ⟨_, _, ⟨?_, ?_⟩, fun other hMem => hFills.marked other (List.mem_cons_of_mem _ hMem),
      rfl, rfl⟩
    · rw [← hFills.olds, hCons, hLength]
    · rw [← hFills.news, hCons, hLength]
  · rintro ⟨oldLeft, newLeft, ⟨rfl, rfl⟩, hFills⟩
    refine ⟨?_, ?_, ?_⟩
    · simpa [h] using hFills.marked
    · rw [hCons, hLength, hFills.olds]
    · rw [hCons, hLength, hFills.news]

theorem unifiedBody_remark (total : Nat) {old new : Nat} (h : ¬(old = 0 ∧ new = 0)) {line : Text}
    (hLine : isRemark line = true) (rest : List Text) :
    unifiedBody total old new (line :: rest) = unifiedBody total old new rest := by
  rw [unifiedBody, if_neg (by simpa using h), if_pos hLine]

/-- A line of a body is read if its sides still have lines left. -/
theorem unifiedBody_cons (total : Nat) {old new : Nat} (h : ¬(old = 0 ∧ new = 0)) {line : Text}
    (hLine : isRemark line = false) (rest : List Text) :
    (∃ found oldLeft newLeft, bodyLine? line = some found ∧
        found.kind.left? old new = some (oldLeft, newLeft) ∧
        unifiedBody total old new (line :: rest) =
          (unifiedBody total oldLeft newLeft rest).map fun (lines, later) =>
            (found :: lines, later)) ∨
      (∀ found ∈ bodyLine? line, found.kind.left? old new = none) ∧
        ∃ message, unifiedBody total old new (line :: rest) = .error (.malformedPatch message) := by
  have hRead (found : HunkLine) (oldLeft newLeft : Nat) : (do
        let (lines, later) ← unifiedBody total oldLeft newLeft rest
        return (found :: lines, later)) =
      (unifiedBody total oldLeft newLeft rest).map fun (lines, later) =>
        (found :: lines, later) := by
    cases unifiedBody total oldLeft newLeft rest <;> rfl
  rw [unifiedBody, if_neg (by simpa using h), if_neg (by simp [hLine]), bodyLine?]
  generalize line.headD (chr ' ') = mark
  dsimp only
  split
  · cases old with
    | zero => exact Or.inr ⟨by simp [LineKind.left?], _, rfl⟩
    | succ old =>
        cases new with
        | zero => exact Or.inr ⟨by simp [LineKind.left?], _, rfl⟩
        | succ new => exact Or.inl ⟨_, old, new, rfl, rfl, hRead ..⟩
  · cases old with
    | zero => exact Or.inr ⟨by simp [LineKind.left?], _, rfl⟩
    | succ old => exact Or.inl ⟨_, old, new, rfl, rfl, hRead ..⟩
  · cases new with
    | zero => exact Or.inr ⟨by simp [LineKind.left?], _, rfl⟩
    | succ new => exact Or.inl ⟨_, old, new, rfl, by cases old <;> rfl, hRead ..⟩
  · rename_i hSpace hDash hPlus
    refine Or.inr ⟨by simp, ?_⟩
    split
    · exact absurd rfl hSpace
    · exact absurd rfl hDash
    · exact absurd rfl hPlus
    · exact ⟨_, rfl⟩

/-- What the reader of a body makes of the lines that follow its head: it gives back some of them,
from the first one on, that are a body of the announced size, and stops if none are. -/
inductive ReadsBody (old new : Nat) (rest : List Text) :
    Except Fault (List HunkLine × List Text) → Prop
  | stops (h : ∀ body later, rest = body ++ later → ¬Fills old new body) (message : Text) :
      ReadsBody old new rest (.error (.malformedPatch message))
  | ends {body later : List Text} (hSplit : rest = body ++ later) (hFills : Fills old new body) :
      ReadsBody old new rest (.ok (body.filterMap bodyLine?, later))

theorem ReadsBody.done (rest : List Text) : ReadsBody 0 0 rest (.ok ([], rest)) :=
  .ends (List.nil_append rest).symm (fills_nil_iff.mpr ⟨rfl, rfl⟩)

/-- A body with lines in it begins with the first line. -/
theorem Fills.exists_cons {old new : Nat} (hSome : ¬(old = 0 ∧ new = 0)) {line : Text}
    {rest body later : List Text} (h : Fills old new body) (hSplit : line :: rest = body ++ later) :
    ∃ others, body = line :: others ∧ rest = others ++ later := by
  cases body with
  | nil => exact absurd (fills_nil_iff.mp h) hSome
  | cons first others =>
      obtain ⟨rfl, hRest⟩ := List.cons.inj hSplit
      exact ⟨others, rfl, hRest⟩

/-- A remark is skipped, and the body goes on. -/
theorem ReadsBody.remark {old new : Nat} (hSome : ¬(old = 0 ∧ new = 0)) {line : Text}
    {rest : List Text} {answer : Except Fault (List HunkLine × List Text)}
    (hLine : isRemark line = true) (h : ReadsBody old new rest answer) :
    ReadsBody old new (line :: rest) answer := by
  cases h with
  | stops h message =>
      refine .stops (fun body later hSplit hFills => ?_) message
      obtain ⟨others, rfl, hRest⟩ := hFills.exists_cons hSome hSplit
      exact h others later hRest ((fills_remark_iff hLine).mp hFills)
  | @ends body later hSplit hFills =>
      rw [hSplit, ← List.filterMap_cons_none (bodyLine?_of_isRemark hLine)]
      exact .ends rfl ((fills_remark_iff hLine).mpr hFills)

/-- A line that is taken fills its places, and the rest of the body has to fill what is left. -/
theorem ReadsBody.keep {old new oldLeft newLeft : Nat} (hSome : ¬(old = 0 ∧ new = 0)) {line : Text}
    {found : HunkLine} {rest : List Text} {answer : Except Fault (List HunkLine × List Text)}
    (hFound : bodyLine? line = some found) (hLeft : found.kind.left? old new = some (oldLeft, newLeft))
    (h : ReadsBody oldLeft newLeft rest answer) :
    ReadsBody old new (line :: rest)
      (answer.map fun (lines, later) => (found :: lines, later)) := by
  cases h with
  | stops h message =>
      refine .stops (fun body later hSplit hFills => ?_) message
      obtain ⟨others, rfl, hRest⟩ := hFills.exists_cons hSome hSplit
      obtain ⟨_, _, hSame, hFills⟩ := (fills_cons_iff hFound).mp hFills
      obtain ⟨rfl, rfl⟩ := Prod.mk.inj (Option.some.inj (hLeft.symm.trans hSame))
      exact h others later hRest hFills
  | @ends body later hSplit hFills =>
      change ReadsBody old new (line :: rest) (.ok (found :: body.filterMap bodyLine?, later))
      rw [hSplit, ← List.filterMap_cons_some hFound]
      exact .ends rfl ((fills_cons_iff hFound).mpr ⟨_, _, hLeft, hFills⟩)

/-- A line that is none of a body, or more than its range has room for, is refused, and no body
could have gone on with it. -/
theorem ReadsBody.refuse {old new : Nat} (hSome : ¬(old = 0 ∧ new = 0)) {line : Text}
    (hLine : isRemark line = false) (hNone : ∀ found ∈ bodyLine? line, found.kind.left? old new = none)
    (rest : List Text) (message : Text) :
    ReadsBody old new (line :: rest) (.error (.malformedPatch message)) := by
  refine .stops (fun body later hSplit hFills => ?_) message
  obtain ⟨others, rfl, _⟩ := hFills.exists_cons hSome hSplit
  obtain ⟨found, hFound⟩ : ∃ found, bodyLine? line = some found := by
    simpa [hLine, Option.isSome_iff_exists] using hFills.marked line (List.mem_cons_self ..)
  obtain ⟨_, _, hLeft, _⟩ := (fills_cons_iff hFound).mp hFills
  rw [hNone found hFound] at hLeft
  cases hLeft

/-- Reading a body ends in a body that fills its range, or at the line where it breaks off. -/
theorem readsBody_unifiedBody (total old new : Nat) (rest : List Text) :
    ReadsBody old new rest (unifiedBody total old new rest) := by
  induction rest generalizing old new with
  | nil =>
      by_cases hDone : old = 0 ∧ new = 0
      · obtain ⟨rfl, rfl⟩ := hDone
        exact .done []
      · rw [unifiedBody, if_neg (by simpa using hDone)]
        refine .stops (fun body later hSplit hFills => ?_) _
        rw [(List.append_eq_nil_iff.mp hSplit.symm).1, fills_nil_iff] at hFills
        exact hDone hFills
  | cons line rest ih =>
      by_cases hDone : old = 0 ∧ new = 0
      · obtain ⟨rfl, rfl⟩ := hDone
        exact .done (line :: rest)
      cases hRemark : isRemark line with
      | true =>
          rw [unifiedBody_remark total hDone hRemark]
          exact (ih old new).remark hDone hRemark
      | false =>
          rcases unifiedBody_cons total hDone hRemark rest with
            ⟨found, oldLeft, newLeft, hFound, hLeft, hRead⟩ | ⟨hNone, message, hError⟩
          · rw [hRead]
            exact (ih oldLeft newLeft).keep hDone hFound hLeft
          · rw [hError]
            exact .refuse hDone hRemark hNone rest message

end Body

/-- A hunk of the size that its head announces. Those in the context form are left aside. -/
def Hunk.Agrees (hunk : Hunk) : Prop := hunk.isContext = false → hunk.sizes = hunk.announced

def Item.Agrees (item : Item) : Prop := ∀ hunk, item = .hunk hunk → hunk.Agrees

/-- What a reader makes of the lines behind a head: it stops at a broken hunk and else gives back
something good and lines that are still to be read. -/
inductive ReadsBehind {α : Type} (broken : Prop) (rest : List Text) (good : α → Prop) :
    Except Fault (α × List Text) → Prop
  | stops (h : broken) (message : Text) :
      ReadsBehind broken rest good (.error (.malformedPatch message))
  | goesOn (h : ¬broken) {found : α} {later : List Text} (hLater : later.length ≤ rest.length)
      (hFound : good found) : ReadsBehind broken rest good (.ok (found, later))

theorem ReadsBehind.toItem {broken broken' : Prop} {rest rest' : List Text}
    {answer : Except Fault (Hunk × List Text)} (h : ReadsBehind broken rest Hunk.Agrees answer)
    (hBroken : broken' ↔ broken) (hRest : rest.length ≤ rest'.length) :
    ReadsBehind broken' rest' Item.Agrees
      (answer.map fun (hunk, later) => (Item.hunk hunk, later)) := by
  cases h with
  | stops h message => exact .stops (hBroken.mpr h) message
  | goesOn h hLater hFound =>
      refine .goesOn (fun hOther => h (hBroken.mp hOther)) (Nat.le_trans hLater hRest) ?_
      rintro hunk ⟨⟩
      exact hFound

section Hunks

/-- Behind a unified head, reading fails exactly if no first lines fill the announced ranges. -/
theorem readsBehind_unified (total : Nat) (head : Nat × Nat × Nat × Nat) (rest : List Text) :
    ReadsBehind (∀ body later, rest = body ++ later → ¬Fills head.2.1 head.2.2.2 body) rest
      Hunk.Agrees (readUnified total head rest) := by
  obtain ⟨oldStart, oldCount, newStart, newCount⟩ := head
  have hBody := readsBody_unifiedBody total oldCount newCount rest
  rw [readUnified]
  generalize unifiedBody total oldCount newCount rest = answer at hBody
  cases hBody with
  | stops h message => exact .stops h message
  | @ends body later hSplit hFills =>
      refine .goesOn (fun hNone => hNone body later hSplit hFills) ?_ fun _ => ?_
      · have hRemarks := (List.dropWhile_sublist (l := later) isRemark).length_le
        rw [hSplit, List.length_append]
        omega
      · exact congrArg₂ (fun old new : Nat => ((old : Int), (new : Int))) hFills.olds hFills.news

/-- The lines after the old side of a change, the line between the sides passed over. -/
def afterOld (rest : List Text) : List Text :=
  let rest := afterMarked (chr '<') rest
  if rest.head? == some "---" then rest.tail else rest

/-- The change that stands behind a head of the normal form. -/
def changeBehind (head : Action × Nat × Nat × Nat × Nat) (rest : List Text) : Hunk :=
  .normal head.1 head.2.1 head.2.2.1 head.2.2.2.1 head.2.2.2.2 (marked (chr '<') rest)
    (marked (chr '>') (afterOld rest))

theorem length_afterOld_le (rest : List Text) : (afterOld rest).length ≤ rest.length := by
  have hOld : (afterMarked (chr '<') rest).length ≤ rest.length := (List.dropWhile_sublist _).length_le
  rw [afterOld]
  split
  · rw [List.length_tail]
    omega
  · exact hOld

/-- Behind a normal head, reading fails exactly if the lines do not make up the announced sizes. -/
theorem readsBehind_normal (line : Text) (head : Action × Nat × Nat × Nat × Nat)
    (rest : List Text) :
    ReadsBehind ((changeBehind head rest).sizes ≠ (changeBehind head rest).announced) rest
      Hunk.Agrees (readNormal line head rest) := by
  have hRead : readNormal line head rest =
      if (changeBehind head rest).sizes = (changeBehind head rest).announced then
        .ok (changeBehind head rest, afterMarked (chr '>') (afterOld rest))
      else .error (.malformedPatch ("malformed normal hunk '" ++ line ++ "'")) := by
    refine if_congr ?_ rfl rfl
    rw [Bool.and_eq_true, decide_eq_true_eq, decide_eq_true_eq]
    exact Prod.mk.injEq .. ▸ Iff.rfl
  rw [hRead]
  split
  · rename_i hSame
    refine .goesOn (fun hOther => hOther hSame) ?_ fun _ => hSame
    exact Nat.le_trans (List.dropWhile_sublist _).length_le (length_afterOld_le rest)
  · rename_i hOther
    exact .stops hOther _

theorem length_contextBlock_le (changed : LineKind) (rest : List Text) :
    (contextBlock changed rest).2.length ≤ rest.length := by
  induction rest with
  | nil => exact Nat.le_refl 0
  | cons line rest ih =>
      rw [contextBlock]
      split
      · exact Nat.le_succ_of_le ih
      · exact Nat.le_refl _

/-- Behind a context head, reading fails exactly if the head of the new lines is missing: sizes are
not compared. -/
theorem readsBehind_context (total : Nat) (head : Nat × Nat) (rest : List Text) :
    ReadsBehind (contextNewHead? ((contextBlock .delete rest).2.headD []) = none) rest Hunk.Agrees
      (readContext total head rest) := by
  cases hHead : contextNewHead? ((contextBlock .delete rest).2.headD []) with
  | none =>
      simp only [readContext, hHead]
      exact .stops trivial _
  | some newHead =>
      simp only [readContext, hHead]
      refine .goesOn (Option.some_ne_none _) ?_ fun hContext => by cases hContext
      have hOld := length_contextBlock_le .delete rest
      have hNew := length_contextBlock_le .add (contextBlock .delete rest).2.tail
      rw [List.length_tail] at hNew
      exact Nat.le_trans hNew (by omega)

end Hunks

section Items

/-- A hunk that has begun and is not what its head says. In the context form only the head of the
new side is asked for. -/
inductive Broken (line : Text) (rest : List Text) : Prop
  | unified {head : Nat × Nat × Nat × Nat} (hHead : unifiedHead? line = some head)
      (h : ∀ body later, rest = body ++ later → ¬Fills head.2.1 head.2.2.2 body)
  | normal {head : Action × Nat × Nat × Nat × Nat} (hHead : normalHead? line = some head)
      (h : (changeBehind head rest).sizes ≠ (changeBehind head rest).announced)
  | context {head : Nat × Nat} (hSeparator : isContextSeparator line = true)
      (hHead : contextOldHead? (rest.headD []) = some head)
      (h : contextNewHead? ((contextBlock .delete rest.tail).2.headD []) = none)

/-- What is broken about a unified hunk, once its head has been read. -/
theorem broken_unified_iff {line : Text} {rest : List Text} {head : Nat × Nat × Nat × Nat}
    (hHead : unifiedHead? line = some head) :
    Broken line rest ↔ ∀ body later, rest = body ++ later → ¬Fills head.2.1 head.2.2.2 body := by
  have hMark := head?_of_unifiedHead? hHead
  constructor
  · rintro (⟨hOther, h⟩ | ⟨hOther, _⟩ | ⟨hOther, _, _⟩)
    · obtain rfl := Option.some.inj (hHead.symm.trans hOther)
      exact h
    · rw [normalHead?_of_head? hMark (by decide)] at hOther
      cases hOther
    · rw [isContextSeparator_of_head? hMark (by decide)] at hOther
      cases hOther
  · exact .unified hHead

/-- What is broken about a normal change, once its head has been read. -/
theorem broken_normal_iff {line : Text} {rest : List Text} {head : Action × Nat × Nat × Nat × Nat}
    (hHead : normalHead? line = some head) :
    Broken line rest ↔ (changeBehind head rest).sizes ≠ (changeBehind head rest).announced := by
  obtain ⟨c, hMark, hDigit⟩ := head?_of_normalHead? hHead
  constructor
  · rintro (⟨hOther, _⟩ | ⟨hOther, h⟩ | ⟨hOther, _, _⟩)
    · rw [unifiedHead?_of_head? hMark (by rintro rfl; cases hDigit)] at hOther
      cases hOther
    · obtain rfl := Option.some.inj (hHead.symm.trans hOther)
      exact h
    · rw [isContextSeparator_of_head? hMark (by rintro rfl; cases hDigit)] at hOther
      cases hOther
  · exact .normal hHead

/-- What is broken about a context hunk, once its first head has been read: the second one. -/
theorem broken_context_iff {line : Text} {rest : List Text} {head : Nat × Nat}
    (hSeparator : isContextSeparator line = true)
    (hHead : contextOldHead? (rest.headD []) = some head) :
    Broken line rest ↔ contextNewHead? ((contextBlock .delete rest.tail).2.headD []) = none := by
  have hMark := head?_of_isContextSeparator hSeparator
  constructor
  · rintro (⟨hOther, _⟩ | ⟨hOther, _⟩ | ⟨_, _, h⟩)
    · rw [unifiedHead?_of_head? hMark (by decide)] at hOther
      cases hOther
    · rw [normalHead?_of_head? hMark (by decide)] at hOther
      cases hOther
    · exact h
  · exact .context hSeparator hHead

/-- The reader of an item stops exactly at a broken hunk. -/
theorem readsBehind_item (total : Nat) (line : Text) (rest : List Text) :
    ReadsBehind (Broken line rest) rest Item.Agrees (readItem total line rest) := by
  cases hUnified : unifiedHead? line with
  | some head =>
      rw [readItem_of_unifiedHead total hUnified]
      exact (readsBehind_unified total head rest).toItem (broken_unified_iff hUnified)
        (Nat.le_refl _)
  | none =>
  cases hContext : if isContextSeparator line then contextOldHead? (rest.headD []) else none with
  | some head =>
      obtain ⟨hSeparator, hHead⟩ : isContextSeparator line = true ∧
          contextOldHead? (rest.headD []) = some head := by
        simpa using hContext
      rw [readItem_of_contextHead total hSeparator hHead]
      exact (readsBehind_context total head rest.tail).toItem (broken_context_iff hSeparator hHead)
        (List.length_tail ▸ Nat.sub_le ..)
  | none =>
  cases hNormal : normalHead? line with
  | some head =>
      rw [readItem_of_normalHead total hNormal]
      exact (readsBehind_normal line head rest).toItem (broken_normal_iff hNormal) (Nat.le_refl _)
  | none =>
      have hWhole : ¬Broken line rest := by
        rintro (⟨hHead, _⟩ | ⟨hHead, _⟩ | ⟨hSeparator, hHead, _⟩)
        · exact Option.some_ne_none _ (hHead.symm.trans hUnified)
        · exact Option.some_ne_none _ (hHead.symm.trans hNormal)
        · rw [if_pos hSeparator, hHead] at hContext
          exact Option.some_ne_none _ hContext
      simp only [readItem, hUnified, hContext, hNormal]
      split
      · exact .goesOn hWhole (List.length_tail ▸ Nat.sub_le ..) (by rintro hunk ⟨⟩)
      · exact .goesOn hWhole (Nat.le_refl _) (by rintro hunk ⟨⟩)

end Items

section Sections

/-- The reader, going on behind each item, comes to a broken hunk. -/
inductive Breaks (total : Nat) : List Text → Prop
  | here {line : Text} {rest : List Text} (h : Broken line rest) : Breaks total (line :: rest)
  | later {line : Text} {rest later : List Text} {item : Item}
      (h : readItem total line rest = .ok (item, later)) (hLater : Breaks total later) :
      Breaks total (line :: rest)

/-- An item that was read is not where the text breaks. -/
theorem breaks_cons_iff {total : Nat} {line : Text} {rest later : List Text} {item : Item}
    (hItem : readItem total line rest = .ok (item, later)) (h : ¬Broken line rest) :
    Breaks total (line :: rest) ↔ Breaks total later := by
  constructor
  · rintro (hBroken | ⟨hOther, hLater⟩)
    · exact absurd hBroken h
    · obtain ⟨rfl, rfl⟩ := Prod.mk.inj (Except.ok.inj (hItem.symm.trans hOther))
      exact hLater
  · exact .later hItem

/-- Sections with hunks, all of which agree with their heads. -/
def AllAgree (sections : List Section) : Prop :=
  ∀ part ∈ sections, part.hunks ≠ [] ∧ ∀ hunk ∈ part.hunks, hunk.Agrees

theorem allAgree_kept {current : Section} (h : ∀ hunk ∈ current.hunks, hunk.Agrees) :
    AllAgree current.kept := by
  intro part hPart
  rw [Section.kept] at hPart
  split at hPart
  · cases hPart
  · rename_i hSome
    rw [List.mem_singleton.mp hPart]
    exact ⟨by simpa using hSome, h⟩

theorem AllAgree.append {sections others : List Section} (h : AllAgree sections)
    (hOthers : AllAgree others) : AllAgree (sections ++ others) :=
  fun part hPart => (List.mem_append.mp hPart).elim (h part) (hOthers part)

/-- What the reader of sections makes of some lines: it stops exactly if it comes to a broken
hunk, and what it gives back agrees. -/
inductive ReadsSections (broken : Prop) : Except Fault (List Section) → Prop
  | stops (h : broken) (message : Text) : ReadsSections broken (.error (.malformedPatch message))
  | ends (h : ¬broken) {sections : List Section} (hAgree : AllAgree sections) :
      ReadsSections broken (.ok sections)

theorem ReadsSections.names {broken : Prop} {answer : Except Fault (List Section)}
    (h : ReadsSections broken answer) {sections : List Section} (hSections : AllAgree sections) :
    ReadsSections broken (answer.map (sections ++ ·)) := by
  cases h with
  | stops h message => exact .stops h message
  | ends h hAgree => exact .ends h (hSections.append hAgree)

/-- Reading ends in sections whose hunks agree with their heads, or at a place where the text
breaks. The induction is on the lines that may still be read. -/
theorem readsSections_sectionsFrom (total : Nat) {bound : Nat} {current : Section}
    {lines : List Text} (hBound : lines.length ≤ bound)
    (hCurrent : ∀ hunk ∈ current.hunks, hunk.Agrees) :
    ReadsSections (Breaks total lines) (sectionsFrom total bound current lines) := by
  induction bound generalizing current lines with
  | zero =>
      rw [List.length_eq_zero_iff.mp (Nat.le_zero.mp hBound)]
      exact .ends (fun h => by cases h) (allAgree_kept hCurrent)
  | succ bound ih =>
  cases lines with
  | nil => exact .ends (fun h => by cases h) (allAgree_kept hCurrent)
  | cons line rest =>
  have hItem := readsBehind_item total line rest
  cases hRead : readItem total line rest with
  | error fault =>
      rw [hRead] at hItem
      cases hItem with
      | stops h message =>
          rw [sectionsFrom, hRead]
          exact .stops (.here h) message
  | ok answer =>
      rw [hRead] at hItem
      cases hItem with
      | @goesOn h item later hLater hFound =>
      have hRest : later.length ≤ bound := Nat.le_trans hLater (Nat.le_of_succ_le_succ hBound)
      rw [breaks_cons_iff hRead h]
      cases item with
      | hunk found =>
          rw [sectionsFrom_of_hunk hRead]
          refine ih hRest fun hunk hMem => ?_
          rcases List.mem_append.mp hMem with hMem | hMem
          · exact hCurrent hunk hMem
          · rw [List.mem_singleton.mp hMem]
            exact hFound found rfl
      | names source target =>
          rw [sectionsFrom_of_names hRead]
          exact (ih hRest (by simp)).names (allAgree_kept hCurrent)
      | nothing =>
          rw [sectionsFrom_of_nothing hRead]
          exact ih hRest hCurrent

/-- Parsing is reading all sections and asking for one at least. -/
theorem parse_eq_bind (t : Text) :
    parse t = (sectionsFrom (patchLines t).length (patchLines t).length ⟨none, none, []⟩
      (patchLines t)).bind fun sections =>
        if sections.isEmpty then .error .noPatch else .ok sections := by
  rw [parse]
  refine bind_congr fun sections => ?_
  split <;> rfl

/-- Every section of a patch has hunks, and a hunk in the unified or the normal form has as many
lines on each side as its head announces. A patch is malformed exactly if the reader comes to a
hunk that is broken. -/
theorem parse_sizes (t : Text) :
    (∀ sections, parse t = .ok sections → ∀ part ∈ sections, part.hunks ≠ [] ∧
      ∀ hunk ∈ part.hunks, hunk.isContext = false → hunk.sizes = hunk.announced) ∧
    ((∃ message, parse t = .error (.malformedPatch message)) ↔
      Breaks (patchLines t).length (patchLines t)) := by
  have hNone : ∀ hunk ∈ (⟨none, none, []⟩ : Section).hunks, hunk.Agrees := by simp
  have hRead := readsSections_sectionsFrom (patchLines t).length
    (Nat.le_refl (patchLines t).length) hNone
  rw [parse_eq_bind]
  generalize sectionsFrom _ _ _ _ = answer at hRead ⊢
  cases hRead with
  | stops h message => exact ⟨by rintro sections ⟨⟩, fun _ => h, fun _ => ⟨message, rfl⟩⟩
  | @ends h sections hAgree =>
      rw [Except.bind]
      refine ⟨fun others hOthers => ?_, ?_, fun hBreaks => absurd hBreaks h⟩
      · split at hOthers
        · cases hOthers
        · cases hOthers
          exact hAgree
      · rintro ⟨message, hError⟩
        split at hError <;> cases hError

/-- Both heads of this hunk announce three lines, and it is read with one line on each side. -/
theorem exists_short_hunk :
    ∃ part hunk, parse "***************\n*** 1,3 ****\n! x\n--- 1,3 ----\n! y\n" = .ok [part] ∧
      part.hunks = [hunk] ∧ hunk.sizes = (1, 1) ∧ hunk.announced = (3, 3) := by
  refine ⟨⟨none, none, [.context 1 3 1 3 [⟨.delete, [chr 'x']⟩] [⟨.add, [chr 'y']⟩]]⟩, _, ?_, rfl, ?_, ?_⟩
  · rfl
  · decide
  · decide

end Sections

end TreeShell.Patch
