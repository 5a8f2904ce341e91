import TreeShell.Patch.Reader
import TreeShell.Proofs.Diff.Splice
import TreeShell.Proofs.Text

/-! What the written forms have in common when they are read back: numbers in heads, lines
that were joined, hunks that stand one after the other. `TurnsBothWays` is what a written
difference has to do; `turnsBothWays_of_ranges` needs of a form only which replacement its
hunks stand for. -/
namespace TreeShell.Patch

open Text Diff

/-- A number is read back when no digit follows it. -/
theorem number?_ofNat_append (n : Nat) {rest : Text}
    (h : ∀ c ∈ rest.head?, isDecimalDigit c = false) :
    number? (ofNat n ++ rest) = some (n, rest) := by
  have hAll : ∀ c ∈ ofNat n, isDecimalDigit c = true := fun c hc => isDecimalDigit_of_mem_ofNat hc
  have hTake : (ofNat n ++ rest).takeWhile isDecimalDigit = ofNat n := by
    rw [List.takeWhile_append_of_pos hAll]
    cases rest with
    | nil => simp
    | cons c rest => simp [h c rfl]
  have hDrop : (ofNat n ++ rest).dropWhile isDecimalDigit = rest := by
    rw [List.dropWhile_append_of_pos hAll]
    cases rest with
    | nil => simp
    | cons c rest => simp [h c rfl]
  have hNonempty : (ofNat n).isEmpty = false := by simp [ofNat]
  simp [number?, hTake, hDrop, hNonempty, digits?_ofNat]

/-- A range of two numbers is read back when no digit follows. -/
theorem range?_pair (first second : Nat) {rest : Text}
    (h : ∀ c ∈ rest.head?, isDecimalDigit c = false) :
    range? (ofNat first ++ chr ',' :: (ofNat second ++ rest)) = some (first, some second, rest) := by
  have hComma : ∀ c ∈ (chr ',' :: (ofNat second ++ rest)).head?, isDecimalDigit c = false := by
    rintro c ⟨⟩
    decide
  simp [range?, number?_ofNat_append first hComma, number?_ofNat_append second h]

/-- The number of a side in a head leads back to the index of its lines. -/
theorem indexOf_first {before : Nat} {lines : List Text} :
    indexOf (before + min 1 lines.length) lines = before := by
  rw [indexOf]
  cases lines with
  | nil => rfl
  | cons line lines =>
      rw [List.isEmpty_cons, if_neg Bool.false_ne_true, List.length_cons]
      omega

/-- A text that is one line of a patch: it has no end of line in it, and no carriage return
at its end. -/
structure IsLine (t : Text) : Prop where
  noBreak : chr '\n' ∉ t
  noReturn : t.getLast? ≠ some (chr '\r')

instance (t : Text) : Decidable (IsLine t) :=
  decidable_of_iff (chr '\n' ∉ t ∧ t.getLast? ≠ some (chr '\r')) ⟨fun h => ⟨h.1, h.2⟩, fun h => ⟨h.1, h.2⟩⟩

theorem isLine_nil : IsLine [] := ⟨by simp, by simp⟩

theorem IsLine.cons {t : Text} (h : IsLine t) {c : CodePoint} (hBreak : c ≠ '\n') (hReturn : c ≠ '\r') :
    IsLine (c :: t) := by
  refine ⟨by simp [h.noBreak, Ne.symm hBreak], ?_⟩
  cases t with
  | nil => simpa using hReturn
  | cons d t => simpa using h.noReturn

theorem isLine_of_forall {t : Text} (h : ∀ c ∈ t, c ≠ '\n' ∧ c ≠ '\r') : IsLine t where
  noBreak hMem := (h _ hMem).1 rfl
  noReturn hLast := (h _ (List.mem_of_getLast? hLast)).2 rfl

theorem patchLines_joinLines {line : Text} {lines : List Text}
    (h : ∀ t ∈ line :: lines, chr '\n' ∉ t) :
    patchLines (joinLines (line :: lines)) = (line :: lines).map (dropFinal (chr '\r')) := by
  rw [patchLines, splitOn_joinLines h]

theorem patchLines_of_isLine {lines : List Text} (hLines : lines ≠ []) (h : ∀ t ∈ lines, IsLine t) :
    patchLines (joinLines lines) = lines := by
  obtain ⟨line, rest, rfl⟩ := List.exists_cons_of_ne_nil hLines
  rw [patchLines_joinLines fun t ht => (h t ht).noBreak,
    List.map_congr_left fun t ht => dropFinal_of_ne (h t ht).noReturn, List.map_id']

/-- A line of a list is one, and so is the empty one behind the end. -/
theorem isLine_lineAt {lines : List Text} (h : ∀ t ∈ lines, IsLine t) (i : Nat) :
    IsLine (lineAt lines i) := by
  rw [lineAt, List.getD_eq_getElem?_getD]
  cases hLine : lines[i]? with
  | none => exact isLine_nil
  | some line => exact h line (List.mem_of_getElem? hLine)

theorem not_mem_ofNat {c : CodePoint} (h : c.isDigit = false) (n : Nat) : c ∉ ofNat n := by
  intro hMem
  rw [isDigit_of_mem_ofNat hMem] at h
  cases h

section Heads

/-! The heads of the three forms begin with different characters. -/

theorem head?_of_dropStart? {c : CodePoint} {mark line rest : Text}
    (h : dropStart? (c :: mark) line = some rest) : line.head? = some c := by
  cases line with
  | nil => cases h
  | cons d line =>
      rw [dropStart?] at h
      split at h
      · rename_i hSame
        rw [hSame, List.head?_cons]
      · cases h

theorem head?_of_unifiedHead? {line : Text} {head : Nat × Nat × Nat × Nat}
    (h : unifiedHead? line = some head) : line.head? = some (chr '@') := by
  rw [unifiedHead?, Option.bind_eq_bind, Option.bind_eq_some_iff] at h
  obtain ⟨rest, hRest, _⟩ := h
  exact head?_of_dropStart? hRest

theorem head?_of_isContextSeparator {line : Text} (h : isContextSeparator line = true) :
    line.head? = some (chr '*') := by
  cases line with
  | nil => cases h
  | cons c line =>
      rw [isContextSeparator, List.replicate_succ, List.isPrefixOf_cons_cons, Bool.and_eq_true,
        beq_iff_eq] at h
      rw [← h.1, List.head?_cons]

/-- A normal head begins with a digit, which the heads of the other forms do not. -/
theorem head?_of_normalHead? {line : Text} {head : Action × Nat × Nat × Nat × Nat}
    (h : normalHead? line = some head) : ∃ c, line.head? = some c ∧ isDecimalDigit c = true := by
  cases line with
  | nil => cases h
  | cons c line =>
      refine ⟨c, rfl, ?_⟩
      by_contra hOther
      have hNone : range? (c :: line) = none := by
        simp [range?, number?, hOther]
      rw [normalHead?, hNone] at h
      cases h

/-- A line that begins with anything but a digit is no normal head. -/
theorem normalHead?_of_head? {line : Text} {c : CodePoint} (h : line.head? = some c)
    (hc : isDecimalDigit c = false) : normalHead? line = none := by
  by_contra hSome
  obtain ⟨head, hHead⟩ := Option.ne_none_iff_exists'.mp hSome
  obtain ⟨d, hd, hDigit⟩ := head?_of_normalHead? hHead
  obtain rfl := Option.some.inj (h.symm.trans hd)
  rw [hc] at hDigit
  cases hDigit

theorem unifiedHead?_of_head? {line : Text} {c : CodePoint} (h : line.head? = some c) (hc : c ≠ '@') :
    unifiedHead? line = none := by
  by_contra hSome
  obtain ⟨head, hHead⟩ := Option.ne_none_iff_exists'.mp hSome
  exact hc (Option.some.inj (h.symm.trans (head?_of_unifiedHead? hHead)))

theorem isContextSeparator_of_head? {line : Text} {c : CodePoint} (h : line.head? = some c)
    (hc : c ≠ '*') : isContextSeparator line = false := by
  rw [Bool.eq_false_iff]
  intro hTrue
  exact hc (Option.some.inj (h.symm.trans (head?_of_isContextSeparator hTrue)))

theorem readItem_of_unifiedHead (total : Nat) {line : Text} {head : Nat × Nat × Nat × Nat}
    (hHead : unifiedHead? line = some head) (rest : List Text) :
    readItem total line rest =
      (readUnified total head rest).map fun (hunk, rest) => (.hunk hunk, rest) := by
  simp only [readItem, hHead]

/-- Behind a row of stars and a first head the reader goes on with a context hunk. -/
theorem readItem_of_contextHead (total : Nat) {line : Text} {head : Nat × Nat} {rest : List Text}
    (hSeparator : isContextSeparator line = true)
    (hHead : contextOldHead? (rest.headD []) = some head) :
    readItem total line rest =
      (readContext total head rest.tail).map fun (hunk, rest) => (.hunk hunk, rest) := by
  have hUnified := unifiedHead?_of_head? (head?_of_isContextSeparator hSeparator) (by decide)
  simp only [readItem, hUnified, hSeparator, if_true, hHead]

theorem readItem_of_normalHead (total : Nat) {line : Text} {head : Action × Nat × Nat × Nat × Nat}
    (hHead : normalHead? line = some head) (rest : List Text) :
    readItem total line rest =
      (readNormal line head rest).map fun (hunk, rest) => (.hunk hunk, rest) := by
  obtain ⟨c, hMark, hDigit⟩ := head?_of_normalHead? hHead
  have hOther {d : CodePoint} (hd : isDecimalDigit d = false) : d ≠ c := by
    rintro rfl
    rw [hd] at hDigit
    cases hDigit
  have hAt : chr '@' ≠ c := hOther (by decide)
  have hStar : chr '*' ≠ c := hOther (by decide)
  have hDash : chr '-' ≠ c := hOther (by decide)
  have hUnified := unifiedHead?_of_head? hMark hAt.symm
  have hSeparator := isContextSeparator_of_head? hMark hStar.symm
  obtain ⟨t, rfl⟩ : ∃ t, line = c :: t := ⟨line.tail, (List.cons_head?_tail hMark).symm⟩
  simp [readItem, hUnified, hSeparator, hStar, hDash, hHead]

end Heads

/-- A hunk is added to the section at hand. -/
theorem sectionsFrom_of_hunk {total bound : Nat} {current : Section} {line : Text}
    {rest later : List Text} {found : Hunk}
    (h : readItem total line rest = .ok (.hunk found, later)) :
    sectionsFrom total (bound + 1) current (line :: rest) =
      sectionsFrom total bound { current with hunks := current.hunks ++ [found] } later := by
  rw [sectionsFrom, h]
  rfl

/-- Names close the section at hand and begin the next one. -/
theorem sectionsFrom_of_names {total bound : Nat} {current : Section} {line source target : Text}
    {rest later : List Text} (h : readItem total line rest = .ok (.names source target, later)) :
    sectionsFrom total (bound + 1) current (line :: rest) =
      (sectionsFrom total bound ⟨some source, some target, []⟩ later).map (current.kept ++ ·) := by
  rw [sectionsFrom, h]
  rfl

theorem sectionsFrom_of_nothing {total bound : Nat} {current : Section} {line : Text}
    {rest later : List Text} (h : readItem total line rest = .ok (.nothing, later)) :
    sectionsFrom total (bound + 1) current (line :: rest) = sectionsFrom total bound current later := by
  rw [sectionsFrom, h]
  rfl

theorem length_le_flatMap {ι : Type} {written : ι → List Text} {parts : List ι}
    (h : ∀ part ∈ parts, written part ≠ []) : parts.length ≤ (parts.flatMap written).length := by
  induction parts with
  | nil => exact Nat.le_refl 0
  | cons part parts ih =>
      have hPart := List.length_pos_iff.mpr (h part (List.mem_cons_self ..))
      have hParts := ih fun next hNext => h next (List.mem_cons_of_mem part hNext)
      rw [List.flatMap_cons, List.length_append, List.length_cons]
      omega

/-- Hunks that stand one after the other are read one by one, each of them being read if
what follows it can begin a hunk. -/
theorem sectionsFrom_written {ι : Type} {total : Nat} {begins : Text → Prop}
    {written : ι → List Text} {found : ι → Hunk} {parts : List ι}
    (hRead : ∀ part ∈ parts, ∃ head body, written part = head :: body ∧ begins head ∧
      ∀ rest, (∀ line ∈ rest.head?, begins line) →
        readItem total head (body ++ rest) = .ok (.hunk (found part), rest))
    {rest : List Text} (hRest : ∀ line ∈ rest.head?, begins line) (current : Section) {bound : Nat}
    (hBound : parts.length + rest.length ≤ bound) :
    ∃ left, rest.length ≤ left ∧ sectionsFrom total bound current (parts.flatMap written ++ rest) =
      sectionsFrom total left { current with hunks := current.hunks ++ parts.map found } rest := by
  induction parts generalizing current bound with
  | nil => exact ⟨bound, by simpa using hBound, by simp⟩
  | cons part parts ih =>
      rw [List.length_cons] at hBound
      obtain ⟨bound, rfl⟩ : ∃ k, bound = k + 1 := ⟨bound - 1, by omega⟩
      obtain ⟨head, body, hWritten, _, hItem⟩ := hRead part (List.mem_cons_self ..)
      have hParts := fun next hNext => hRead next (List.mem_cons_of_mem part hNext)
      have hNext : ∀ line ∈ (parts.flatMap written ++ rest).head?, begins line := by
        cases parts with
        | nil => exact hRest
        | cons next parts =>
            obtain ⟨head, body, hSame, hBegins, _⟩ := hParts next (List.mem_cons_self ..)
            rw [List.flatMap_cons, hSame]
            rintro line ⟨⟩
            exact hBegins
      obtain ⟨left, hLeft, hSections⟩ :=
        ih hParts { current with hunks := current.hunks ++ [found part] }
          (show parts.length + rest.length ≤ bound by omega)
      refine ⟨left, hLeft, ?_⟩
      rw [List.flatMap_cons, hWritten, List.append_assoc, List.cons_append,
        sectionsFrom_of_hunk (hItem _ hNext), hSections, List.map_cons, List.append_assoc,
        List.singleton_append]

/-- Hunks turn each of two lists into the other, without a warning and each hunk where it is
declared, however far a hunk may be moved. -/
def TurnsBothWays (hunks : List Hunk) (a b : List Text) : Prop :=
  ∀ maxOffset, apply a hunks false maxOffset = ([], .ok b) ∧
    apply b hunks true maxOffset = ([], .ok a) ∧
    MadeInPlace maxOffset (orderedSplices hunks false) a b ∧
    MadeInPlace maxOffset (orderedSplices hunks true) b a

/-- Hunks for ranges that hold every change turn the lists of a script into each other. -/
theorem turnsBothWays_of_ranges {a b : List Text} {edits : List Edit} {ranges : List Diff.Range}
    (h : IsScript a b edits) (hSpaced : Spaced 0 edits.length 0 ranges)
    (hHold : HoldChanges ranges edits) {written : Diff.Range → Hunk}
    (hSplice : ∀ range ∈ ranges,
      (written range).toSplice = spliceOf (oldText? a) (newText? a b) edits range) :
    TurnsBothWays (ranges.map written) a b := by
  intro maxOffset
  have hForward : MadeInPlace maxOffset (orderedSplices (ranges.map written) false) a b := by
    refine (h.rewrites hSpaced hHold).madeInPlace_orderedSplices ?_ maxOffset
    rw [List.map_map]
    apply List.map_congr_left
    intro range hRange
    exact (hSplice range hRange).symm
  have hBackward : MadeInPlace maxOffset (orderedSplices (ranges.map written) true) b a := by
    refine (h.rewrites_reverse hSpaced hHold).madeInPlace_orderedSplices ?_ maxOffset
    rw [List.map_map]
    apply List.map_congr_left
    intro range hRange
    exact congrArg Splice.reverse (hSplice range hRange).symm
  exact ⟨hForward.applySplices_eq, hBackward.applySplices_eq, hForward, hBackward⟩

/-- A difference is shown: between lists that differ some range holds a change. -/
theorem ranges_ne_nil {a b : List Text} {edits : List Edit} {ranges : List Diff.Range}
    (hDiffer : a ≠ b) (h : IsScript a b edits) (hHold : HoldChanges ranges edits) : ranges ≠ [] := by
  rintro rfl
  apply hDiffer
  apply h.eq_of_isIdentity
  rw [isIdentity, List.all_eq_true]
  intro edit hMem
  by_contra hChange
  obtain ⟨k, hk⟩ := List.mem_iff_getElem?.mp hMem
  obtain ⟨range, hRange, _⟩ := hHold k edit hk (by simpa using hChange)
  cases hRange

end TreeShell.Patch
