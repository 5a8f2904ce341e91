import TreeShell.Line.Weight
import TreeShell.Text.Integer
import TreeShell.Text.Lines

/-! Reading back what was put together: lines that were joined, blanks around a text, and
numbers that were written in digits. -/
namespace TreeShell.Text

theorem splitOn_of_not_mem {sep : CodePoint} {t : Text} (h : sep ∉ t) : splitOn sep t = [t] := by
  induction t with
  | nil => rfl
  | cons c rest ih =>
      rw [List.mem_cons, not_or] at h
      simp [splitOn, Ne.symm h.1, ih h.2]

/-- A separator divides the splitting of a text into that of its two sides. -/
theorem splitOn_append_sep (sep : CodePoint) (t rest : Text) :
    splitOn sep (t ++ sep :: rest) = splitOn sep t ++ splitOn sep rest := by
  induction t with
  | nil => simp [splitOn]
  | cons c t ih =>
      obtain ⟨piece, pieces, hPieces⟩ := List.exists_cons_of_ne_nil (splitOn_ne_nil sep t)
      rw [List.cons_append, splitOn, splitOn, ih, hPieces]
      split <;> rfl

theorem splitOn_append {sep : CodePoint} {t : Text} (h : sep ∉ t) (rest : Text) :
    splitOn sep (t ++ sep :: rest) = t :: splitOn sep rest := by
  rw [splitOn_append_sep, splitOn_of_not_mem h]
  rfl

/-- A text that begins with a separator begins with an empty piece. -/
theorem head?_splitOn {sep : CodePoint} {t : Text} (h : t.head? = some sep) :
    (splitOn sep t).head? = some [] := by
  obtain ⟨rest, rfl⟩ := List.head?_eq_some_iff.mp h
  rw [splitOn, if_pos rfl]
  rfl

/-- A text that ends with a separator ends with an empty piece. -/
theorem getLast?_splitOn {sep : CodePoint} {t : Text} (h : t.getLast? = some sep) :
    (splitOn sep t).getLast? = some [] := by
  obtain ⟨front, rfl⟩ := List.getLast?_eq_some_iff.mp h
  rw [splitOn_append_sep, splitOn]
  exact List.getLast?_concat ..

/-- Pieces that hold no separator are found again after they have been joined. -/
theorem splitOn_join {sep : CodePoint} {piece : Text} {pieces : List Text}
    (h : ∀ t ∈ piece :: pieces, sep ∉ t) :
    splitOn sep (join [sep] (piece :: pieces)) = piece :: pieces := by
  induction pieces generalizing piece with
  | nil => exact splitOn_of_not_mem (h piece (List.mem_cons_self ..))
  | cons next rest ih =>
      have hRest := ih fun t ht => h t (List.mem_cons_of_mem _ ht)
      have hJoin : join [sep] (piece :: next :: rest) = piece ++ sep :: join [sep] (next :: rest) := by
        simp [join]
      rw [hJoin, splitOn_append (h piece (List.mem_cons_self ..)), hRest]

/-- Lines that hold no end of line are found again after they have been joined. -/
theorem splitOn_joinLines {line : Text} {lines : List Text}
    (h : ∀ t ∈ line :: lines, chr '\n' ∉ t) :
    splitOn (chr '\n') (joinLines (line :: lines)) = line :: lines :=
  splitOn_join h

/-- No piece of a split text holds the separator. -/
theorem not_mem_of_mem_splitOn {sep : CodePoint} {t piece : Text} (h : piece ∈ splitOn sep t) :
    sep ∉ piece := by
  induction t generalizing piece with
  | nil =>
      rw [splitOn, List.mem_singleton] at h
      simp [h]
  | cons c rest ih =>
      rw [splitOn] at h
      split at h
      · rcases List.mem_cons.mp h with rfl | h
        · simp
        · exact ih h
      · rename_i hSep
        obtain ⟨first, others, hPieces⟩ := List.exists_cons_of_ne_nil (splitOn_ne_nil sep rest)
        rw [hPieces] at h ih
        rcases List.mem_cons.mp h with rfl | h
        · simpa using ⟨Ne.symm hSep, ih (List.mem_cons_self ..)⟩
        · exact ih (List.mem_cons_of_mem _ h)

theorem dropStart?_append (part rest : Text) : dropStart? part (part ++ rest) = some rest := by
  induction part with
  | nil => rfl
  | cons c part ih => rw [List.cons_append, dropStart?, if_pos rfl, ih]

/-- A text is broken at a separator in front of which there is none. -/
theorem breakOn?_append {sep : CodePoint} {t : Text} (h : sep ∉ t) (rest : Text) :
    breakOn? sep (t ++ sep :: rest) = some (t, rest) := by
  induction t with
  | nil => simp [breakOn?]
  | cons c t ih =>
      rw [List.mem_cons, not_or] at h
      rw [List.cons_append, breakOn?, if_neg (Ne.symm h.1), ih h.2]
      rfl

theorem not_mem_of_breakOn?_eq_none {sep : CodePoint} {t : Text} (h : breakOn? sep t = none) :
    sep ∉ t := by
  induction t with
  | nil => simp
  | cons c rest ih =>
      rw [breakOn?] at h
      split at h
      · cases h
      · rename_i hSep
        simpa using ⟨Ne.symm hSep, ih (Option.map_eq_none_iff.mp h)⟩

/-- A text is broken at the first separator, so none stands in front of it. -/
theorem not_mem_of_breakOn?_eq_some {sep : CodePoint} {t before after : Text}
    (h : breakOn? sep t = some (before, after)) : sep ∉ before := by
  induction t generalizing before with
  | nil => cases h
  | cons c rest ih =>
      rw [breakOn?] at h
      split at h
      · cases h
        simp
      · rename_i hSep
        obtain ⟨⟨first, last⟩, hBreak, hSame⟩ := Option.map_eq_some_iff.mp h
        cases hSame
        simpa using ⟨Ne.symm hSep, ih hBreak⟩

theorem eq_append_of_breakOn?_eq_some {sep : CodePoint} {t before after : Text}
    (h : breakOn? sep t = some (before, after)) : t = before ++ sep :: after := by
  induction t generalizing before with
  | nil => cases h
  | cons c rest ih =>
      rw [breakOn?] at h
      split at h
      · rename_i hSep
        cases h
        rw [hSep, List.nil_append]
      · obtain ⟨⟨first, last⟩, hBreak, hSame⟩ := Option.map_eq_some_iff.mp h
        cases hSame
        rw [ih hBreak, List.cons_append]

/-- A text that ends a line is its lines and that end. -/
theorem lines_of_ended {t : Text} (h : t.getLast? = some (chr '\n')) :
    lines t = splitOn (chr '\n') t.dropLast := by
  have hSome : t.isEmpty = false := by
    cases t with
    | nil => cases h
    | cons c t => rfl
  rw [lines, hSome, dropFinal, if_pos h]
  rfl

theorem not_mem_of_mem_lines {t line : Text} (h : line ∈ lines t) : chr '\n' ∉ line := by
  rw [lines] at h
  split at h
  · cases h
  · exact not_mem_of_mem_splitOn h

/-- Joining two lists that are not empty puts one separator between what each of them joins to. -/
theorem join_append (sep : Text) {front back : List Text} (hFront : front ≠ []) (hBack : back ≠ []) :
    join sep (front ++ back) = join sep front ++ sep ++ join sep back := by
  induction front with
  | nil => exact absurd rfl hFront
  | cons piece front ih =>
      cases front with
      | nil =>
          obtain ⟨next, rest, rfl⟩ := List.exists_cons_of_ne_nil hBack
          simp [join]
      | cons second front =>
          have hRest := ih (by simp)
          simp only [List.cons_append, join, List.append_assoc] at hRest ⊢
          rw [hRest]

theorem joinLines_append {front back : List Text} (hFront : front ≠ []) (hBack : back ≠ []) :
    joinLines (front ++ back) = joinLines front ++ chr '\n' :: joinLines back := by
  rw [joinLines, join_append _ hFront hBack, List.append_assoc]
  rfl

/-- A character that is not dropped keeps its place at the beginning. -/
theorem dropEndWhile_cons {p : CodePoint → Bool} {c : CodePoint} (h : p c = false) (t : Text) :
    dropEndWhile p (c :: t) = c :: dropEndWhile p t := by
  rw [dropEndWhile, dropEndWhile, List.reverse_cons, List.dropWhile_append]
  split
  · rename_i hEmpty
    rw [List.isEmpty_iff.mp hEmpty]
    simp [h]
  · simp

/-- What is dropped from the end of a text is an end of it. -/
theorem exists_dropEndWhile (p : CodePoint → Bool) (t : Text) :
    ∃ back, t = dropEndWhile p t ++ back ∧ ∀ c ∈ back, p c = true := by
  refine ⟨(t.reverse.takeWhile p).reverse, ?_, fun c hc => ?_⟩
  · rw [dropEndWhile, ← List.reverse_append, List.takeWhile_append_dropWhile, List.reverse_reverse]
  · exact List.all_eq_true.mp List.all_takeWhile c (List.mem_reverse.mp hc)

/-- A text is what is left of it and the characters that are dropped. -/
theorem exists_replicate_dropEndWhile (c : CodePoint) (t : Text) :
    ∃ count, t = dropEndWhile (· == c) t ++ List.replicate count c := by
  obtain ⟨back, hText, hBack⟩ := exists_dropEndWhile (· == c) t
  have hReplicate := List.eq_replicate_of_mem fun d hd => beq_iff_eq.mp (hBack d hd)
  refine ⟨back.length, ?_⟩
  rw [← hReplicate]
  exact hText

theorem getLast?_dropEndWhile {p : CodePoint → Bool} {t : Text} {c : CodePoint}
    (h : (dropEndWhile p t).getLast? = some c) : p c = false := by
  have hFirst := List.head?_dropWhile_not p t.reverse
  rw [dropEndWhile, List.getLast?_reverse] at h
  rwa [h] at hFirst

/-- A text is what is left of it when nothing is to be dropped. -/
theorem dropEndWhile_eq_self {p : CodePoint → Bool} {t : Text}
    (h : ∀ c, t.getLast? = some c → p c = false) : dropEndWhile p t = t := by
  obtain ⟨back, hText, hBack⟩ := exists_dropEndWhile p t
  rcases List.eq_nil_or_concat back with rfl | ⟨front, c, rfl⟩
  · rw [List.append_nil] at hText
    exact hText.symm
  · have hLast := h c (by rw [hText]; simp)
    rw [hBack c (by simp)] at hLast
    cases hLast

theorem dropFinal_of_ne {c : CodePoint} {t : Text} (h : t.getLast? ≠ some c) : dropFinal c t = t :=
  if_neg h

/-- Joined lines end as the last of them does, unless it is empty. -/
theorem getLast?_joinLines {last : Text} (h : last ≠ []) (front : List Text) :
    (joinLines (front ++ [last])).getLast? = last.getLast? := by
  cases front with
  | nil => rfl
  | cons line front =>
      obtain ⟨c, rest, rfl⟩ := List.exists_cons_of_ne_nil h
      rw [joinLines_append (List.cons_ne_nil _ _) (List.cons_ne_nil _ _), List.getLast?_append]
      rfl

/-- Lines are found again after they have been joined, but for an empty one at the end. -/
theorem lines_joinLines {ls : List Text} (h : ∀ t ∈ ls, chr '\n' ∉ t) :
    lines (joinLines ls) = if ls.getLast? = some [] then ls.dropLast else ls := by
  rcases List.eq_nil_or_concat ls with rfl | ⟨front, last, rfl⟩
  · rfl
  · rw [List.concat_eq_append] at h ⊢
    rw [List.getLast?_concat]
    by_cases hLast : last = []
    · subst hLast
      rw [if_pos rfl, List.dropLast_concat]
      cases front with
      | nil => rfl
      | cons line front =>
          have hJoin := joinLines_append (List.cons_ne_nil line front) (List.cons_ne_nil [] [])
          have hSplit := splitOn_joinLines fun t ht => h t (List.mem_append_left _ ht)
          rw [hJoin]
          change lines (joinLines (line :: front) ++ [chr '\n']) = _
          rw [lines_of_ended List.getLast?_concat, List.dropLast_concat]
          exact hSplit
    · rw [if_neg (by simpa using hLast)]
      have hEnd := getLast?_joinLines hLast front
      have hKept : (joinLines (front ++ [last])).getLast? ≠ some (chr '\n') := by
        rw [hEnd]
        exact fun hBreak => h last (by simp) (List.mem_of_getLast? hBreak)
      have hSome : (joinLines (front ++ [last])).isEmpty = false := by
        cases hJoin : joinLines (front ++ [last]) with
        | nil =>
            rw [hJoin, List.getLast?_eq_some_getLast hLast] at hEnd
            cases hEnd
        | cons d rest => rfl
      obtain ⟨line, rest, hLines⟩ := List.exists_cons_of_ne_nil (show front ++ [last] ≠ [] by simp)
      rw [lines, hSome, dropFinal_of_ne hKept]
      rw [hLines] at h ⊢
      exact splitOn_joinLines h

/-- Nothing but blanks is dropped from the ends of a text. -/
theorem exists_strip (t : Text) : ∃ front back, t = front ++ (strip t ++ back) ∧
    (∀ c ∈ front, isBlank c = true) ∧ ∀ c ∈ back, isBlank c = true := by
  refine ⟨t.takeWhile isBlank, ((t.dropWhile isBlank).reverse.takeWhile isBlank).reverse, ?_, ?_, ?_⟩
  · rw [strip, trimWhile, dropEndWhile, ← List.reverse_append, List.takeWhile_append_dropWhile,
      List.reverse_reverse, List.takeWhile_append_dropWhile]
  · intro c hc
    exact List.all_eq_true.mp List.all_takeWhile c hc
  · intro c hc
    exact List.all_eq_true.mp List.all_takeWhile c (List.mem_reverse.mp hc)

theorem digitValue?_of_isDigit {c : CodePoint} (h : c.isDigit = true) :
    digitValue? c = some (c.toNat - '0'.toNat) := by
  have hc : 0x30 ≤ c.toNat ∧ c.toNat ≤ 0x39 := CodePoint.range_of_isDigit h
  simp [digitValue?, digitZeros, hc]

theorem isDigit_of_mem_ofNat {c : CodePoint} {n : Nat} (h : c ∈ ofNat n) : c.isDigit = true := by
  obtain ⟨digit, hDigit, rfl⟩ := List.mem_map.mp h
  exact Nat.isDigit_of_mem_toDigits (by decide) (by decide) hDigit

theorem isDecimalDigit_of_mem_ofNat {c : CodePoint} {n : Nat} (h : c ∈ ofNat n) :
    isDecimalDigit c = true := by
  simp [isDecimalDigit, digitValue?_of_isDigit (isDigit_of_mem_ofNat h)]

/-- Digits are read one at a time to the number that `Nat.ofDigitChars` makes of them. -/
theorem foldl_digits {digits : List Char} (h : ∀ c ∈ digits, c.isDigit = true) (value : Nat) :
    (digits.map chr).foldl (fun value c => do return (← value) * 10 + (← digitValue? c)) (some value) =
      some (Nat.ofDigitChars 10 digits value) := by
  induction digits generalizing value with
  | nil => simp
  | cons c digits ih =>
      have hDigit : (chr c).isDigit = true := h c List.mem_cons_self
      have hStep : (do return (← some value) * 10 + (← digitValue? (chr c))) =
          some (10 * value + (c.toNat - '0'.toNat)) := by
        rw [digitValue?_of_isDigit hDigit, Nat.mul_comm]
        rfl
      rw [List.map_cons, List.foldl_cons, hStep, ih (fun d hd => h d (List.mem_cons_of_mem _ hd)),
        Nat.ofDigitChars_cons]

/-- The digits of a number denote it. -/
theorem digits?_ofNat (n : Nat) : digits? (ofNat n) = some n := by
  have hDigits (c : Char) (hc : c ∈ Nat.toDigits 10 n) : c.isDigit = true :=
    Nat.isDigit_of_mem_toDigits (by decide) (by decide) hc
  rw [digits?, ofNat, foldl_digits hDigits, Nat.ofDigitChars_ten_toDigits]

end TreeShell.Text
