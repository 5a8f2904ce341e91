import TreeShell.Proofs.Line.Operator

/-! The command that a heredoc is attached to. It is what stands between the last separator
before `<<` and the `<<`. Read by itself, it has no separator: reading a part of a line
gives what reading the line gives there, and the blanks that are dropped around it are not
between quotes. Pipes, `&&` and `||` are no separators in this, and stay in the command. -/
namespace TreeShell

/-- What a text begins with is decided in front of a character that the beginning does not hold. -/
theorem isPrefixOf_append_of_not_mem {part front back : Text} {d : CodePoint} (h : d ∉ part) :
    part.isPrefixOf (front ++ d :: back) = part.isPrefixOf front := by
  induction part generalizing front with
  | nil => cases front <;> rfl
  | cons p part ih =>
      rw [List.mem_cons, not_or] at h
      cases front with
      | nil =>
          simp [List.isPrefixOf, Ne.symm h.1]
      | cons c front => simp [List.isPrefixOf, ih h.2]

/-- Operators are read without regard to a character that cannot continue one. -/
theorem Operator.read?_append {c d : CodePoint} {front back : Text}
    (h : ∀ op : Operator, op.text.head? = some c → d ∉ op.text.tail) :
    read? (c :: (front ++ d :: back)) = read? (c :: front) := by
  refine congrArg (every.find? ·) (funext fun op => ?_)
  cases hText : op.text with
  | nil => rfl
  | cons first part =>
      change (first == c && part.isPrefixOf (front ++ d :: back)) =
        (first == c && part.isPrefixOf front)
      by_cases hSame : first = c
      · have hTail := h op (by simp [hText, hSame])
        rw [hText, List.tail_cons] at hTail
        rw [isPrefixOf_append_of_not_mem hTail]
      · rw [beq_false_of_ne hSame, Bool.false_and, Bool.false_and]

theorem Operator.eq_of_read?_heredoc {c : CodePoint} {rest : Text}
    (h : read? (c :: rest) = some (.redirect .heredoc)) : ∃ after, c = '<' ∧ rest = chr '<' :: after := by
  obtain ⟨tail, after, hText, rfl⟩ := text_of_read? h
  cases hText
  exact ⟨after, rfl, rfl⟩

/-- An operator that stands before `<<` is the same without it. -/
theorem Operator.read?_before_heredoc {c : CodePoint} {part after : Text}
    (h : read? (c :: (part ++ chr '<' :: chr '<' :: after)) ≠ some (.redirect .heredoc)) :
    read? (c :: (part ++ chr '<' :: chr '<' :: after)) = read? (c :: part) := by
  by_cases hc : c = '<'
  · subst hc
    cases part with
    | nil => exact absurd rfl h
    | cons d part =>
        have hTwo (more : Text) : read? (chr '<' :: d :: more) =
            if d = '<' then some (.redirect .heredoc) else some (.redirect .input) := by
          by_cases hd : d = '<'
          · subst hd
            rfl
          · simp [read?, every, Operator.text, Redirector.text, List.isPrefixOf, hd, Ne.symm hd]
        exact (hTwo _).trans (hTwo part).symm
  · have hOnly (how : Redirector) (hTail : chr '<' ∈ how.text.tail) : how.text.head? = some (chr '<') := by
      cases how <;> simp [Redirector.text] at hTail ⊢
    apply read?_append
    intro op hHead hTail
    cases op with
    | redirect how => exact hc (Option.some.inj (hHead.symm.trans (hOnly how hTail)))
    | pipe => simp [Operator.text] at hTail
    | and => simp [Operator.text] at hTail
    | or => simp [Operator.text] at hTail
    | sequence => simp [Operator.text] at hTail
    | mergeErrors => simp [Operator.text] at hTail

namespace Lexeme

/-- A mode in which an operator can begin. -/
def Mode.isOpen : Mode → Bool
  | .between | .inWord _ => true
  | _ => false

/-- At most one operator is put out between words: a sequence at once, and any other one after it
has been read ahead. -/
theorem stepBetween_cases (position : Nat) (c : CodePoint) (rest : Text) :
    OnlyWords (stepBetween position c rest).1 ∨
    ∃ op, (stepBetween position c rest).1 = [.operator op position] ∧
      (op = .sequence → (stepBetween position c rest).2 = .between) ∧
      (op ≠ .sequence → Operator.read? (c :: rest) = some op) := by
  rw [stepBetween]
  split
  · exact Or.inl onlyWords_nil
  · split
    · exact Or.inr ⟨.sequence, rfl, fun _ => rfl, fun h => absurd rfl h⟩
    · split
      · rename_i op hOp
        refine Or.inr ⟨op, rfl, ?_, fun _ => hOp⟩
        rintro rfl
        rfl
      · exact Or.inl onlyWords_nil

/-- One character: it completes words at most, or it also begins an operator. -/
theorem step_cases (mode : Mode) (position : Nat) (c : CodePoint) (rest : Text) :
    OnlyWords (step mode position c rest).1 ∨
    ∃ words op, (step mode position c rest).1 = words ++ [.operator op position] ∧
      OnlyWords words ∧ mode.isOpen = true ∧
      (op = .sequence → (step mode position c rest).2 = .between) ∧
      (op ≠ .sequence → Operator.read? (c :: rest) = some op) := by
  cases mode with
  | between =>
      rcases stepBetween_cases position c rest with hWords | ⟨op, hFound, hSequence, hRead⟩
      · exact Or.inl hWords
      · exact Or.inr ⟨[], op, hFound, onlyWords_nil, rfl, hSequence, hRead⟩
  | inWord w =>
      rw [step]
      split
      · rcases stepBetween_cases position c rest with hWords | ⟨op, hFound, hSequence, hRead⟩
        · exact Or.inl ((onlyWords_word w).append hWords)
        · exact Or.inr ⟨[w.finish], op, by simp [hFound], onlyWords_word w, rfl, hSequence, hRead⟩
      · exact Or.inl onlyWords_nil
  | inOperator left => exact Or.inl onlyWords_nil
  | escaped w => exact Or.inl onlyWords_nil
  | inSingle w opened => exact Or.inl onlyWords_nil
  | inDouble w opened => exact Or.inl onlyWords_nil
  | escapedInDouble w opened => exact Or.inl onlyWords_nil
  | inCommand w opened depth => exact Or.inl onlyWords_nil

/-- A character is read without regard to what follows the part of the line it stands in. -/
theorem step_append {mode : Mode} {position : Nat} {c d : CodePoint} {front back : Text}
    (hRead : mode.isOpen = true →
      Operator.read? (c :: (front ++ d :: back)) = Operator.read? (c :: front))
    (hCommand : d ≠ '(') (hEscape : escapable d = false) :
    step mode position c (front ++ d :: back) = step mode position c front := by
  have hHead : ((front ++ d :: back).head? == some (chr '(')) = (front.head? == some (chr '(')) := by
    cases front <;> simp [hCommand]
  have hAny : (front ++ d :: back).head?.any escapable = front.head?.any escapable := by
    cases front <;> simp [hEscape]
  have hWord (w : Draft) : stepWord w position c (front ++ d :: back) = stepWord w position c front := by
    simp only [stepWord, hHead]
  cases mode with
  | between => simp only [step, stepBetween, hWord, hRead rfl]
  | inWord w =>
      have hEnds : endsWord c (front ++ d :: back) = endsWord c front := by
        simp only [endsWord, hRead rfl]
      have hBetween : stepBetween position c (front ++ d :: back) = stepBetween position c front := by
        simp only [stepBetween, hWord, hRead rfl]
      simp only [step, hEnds, hBetween, hWord]
  | inOperator left => rfl
  | escaped w => rfl
  | inSingle w opened => rfl
  | inDouble w opened => simp only [step, hHead, hAny]
  | escapedInDouble w opened => rfl
  | inCommand w opened depth => rfl

/-- A heredoc operator that is met outside of quotes is put out. -/
theorem not_onlyWords_of_heredoc {mode : Mode} {position : Nat} {c : CodePoint} {rest : Text}
    (hOpen : mode.isOpen = true) (hRead : Operator.read? (c :: rest) = some (.redirect .heredoc)) :
    ¬ OnlyWords (step mode position c rest).1 := by
  obtain ⟨after, rfl, rfl⟩ := Operator.eq_of_read?_heredoc hRead
  have hFound : .operator (.redirect .heredoc) position ∈ (step mode position (chr '<') (chr '<' :: after)).1 := by
    cases mode with
    | between => exact List.mem_singleton.mpr rfl
    | inWord w => exact List.mem_cons_of_mem _ (List.mem_singleton.mpr rfl)
    | _ => cases hOpen
  exact fun hWords => hWords.not_mem_operator _ _ hFound

/-- A character before `<<` can be read without it. -/
theorem readFrom_cons_before_heredoc {mode : Mode} {position : Nat} {c : CodePoint} {part after : Text}
    {found : List Lexeme}
    (hOther : mode.isOpen = true →
      Operator.read? (c :: (part ++ chr '<' :: chr '<' :: after)) ≠ some (.redirect .heredoc))
    (hPart : readFrom (step mode position c (part ++ chr '<' :: chr '<' :: after)).2 (position + 1) part =
      .ok found) :
    readFrom mode position (c :: part) =
      .ok ((step mode position c (part ++ chr '<' :: chr '<' :: after)).1 ++ found) := by
  have hStep : step mode position c (part ++ chr '<' :: chr '<' :: after) = step mode position c part :=
    step_append (fun hOpen => Operator.read?_before_heredoc (hOther hOpen)) (by decide) (by decide)
  rw [hStep] at hPart ⊢
  exact readFrom_cons_eq_ok.mpr ⟨found, hPart, rfl⟩

/-- The search for `<<` passes by the words in front. -/
theorem locateIn_words_append {words later : List Lexeme} (h : OnlyWords words) (start : Nat) :
    HeredocHeader.locateIn start (words ++ later) = HeredocHeader.locateIn start later := by
  induction words with
  | nil => rfl
  | cons lexeme words ih =>
      obtain ⟨w, position, quoted, rfl⟩ := h lexeme (by simp)
      exact ih fun other hOther => h other (List.mem_cons_of_mem _ hOther)

/-- Words alone are no header. -/
theorem locateIn_words {words : List Lexeme} (h : OnlyWords words) (start : Nat) :
    HeredocHeader.locateIn start words = none := by
  rw [← List.append_nil words, locateIn_words_append h]
  rfl

/-- A part of a line ends before `<<`, which stands at `last`, and has no separator. It begins
at `first`, behind a separator, unless it continues the command that began at `start`. -/
def Precedes (mode : Mode) (position start : Nat) (line : Text) (first last : Nat) : Prop :=
  ∃ before part after found, line = before ++ (part ++ chr '<' :: chr '<' :: after) ∧
    last = position + before.length + part.length ∧ NoSequence found ∧
    ((before = [] ∧ first = start ∧ readFrom mode position part = .ok found) ∨
      (first = position + before.length ∧ readFrom .between first part = .ok found))

/-- A character that is no sequence and no heredoc changes nothing about which of the two comes
first. -/
theorem Precedes.cons {mode : Mode} {position start first last : Nat} {c : CodePoint} {rest : Text}
    (hNo : NoSequence (step mode position c rest).1)
    (hOther : mode.isOpen = true → Operator.read? (c :: rest) ≠ some (.redirect .heredoc))
    (h : Precedes (step mode position c rest).2 (position + 1) start rest first last) :
    Precedes mode position start (c :: rest) first last := by
  obtain ⟨before, part, after, found, rfl, hLast, hFound, hPlace⟩ := h
  rcases hPlace with ⟨rfl, hFirst, hPart⟩ | ⟨hFirst, hPart⟩
  · exact ⟨[], c :: part, after, _, rfl, by simp at hLast ⊢; omega, noSequence_append.mpr ⟨hNo, hFound⟩,
      Or.inl ⟨rfl, hFirst, readFrom_cons_before_heredoc hOther hPart⟩⟩
  · exact ⟨c :: before, part, after, found, rfl, by simp; omega, hFound,
      Or.inr ⟨by simp; omega, hPart⟩⟩

/-- The command begins anew behind a separator. -/
theorem Precedes.separator {mode : Mode} {position start first last : Nat} {c : CodePoint} {rest : Text}
    (h : Precedes .between (position + 1) (position + 1) rest first last) :
    Precedes mode position start (c :: rest) first last := by
  obtain ⟨before, part, after, found, rfl, hLast, hNo, hPlace⟩ := h
  have hFirst : first = position + 1 + before.length ∧ readFrom .between first part = .ok found := by
    rcases hPlace with ⟨rfl, rfl, hPart⟩ | hPlace
    · exact ⟨rfl, hPart⟩
    · exact hPlace
  exact ⟨c :: before, part, after, found, rfl, by simp; omega, hNo,
    Or.inr ⟨by simp; omega, hFirst.2⟩⟩

/-- With the heredoc operator ahead, nothing can come in between. -/
theorem precedes_heredoc {mode : Mode} {position start : Nat} {after : Text} (h : mode.isOpen = true) :
    Precedes mode position start (chr '<' :: chr '<' :: after) start position := by
  have hEnd : ∃ found, finish mode = .ok found := by
    cases mode with
    | between => exact ⟨_, rfl⟩
    | inWord w => exact ⟨_, rfl⟩
    | _ => cases h
  obtain ⟨found, hFinish⟩ := hEnd
  exact ⟨[], [], after, found, rfl, rfl, (onlyWords_finish hFinish).noSequence,
    Or.inl ⟨rfl, rfl, hFinish⟩⟩

/-- What stands between the last separator and the first `<<` of a line can be read by itself,
and has no separator. -/
theorem precedes_of_locateIn {line : Text} {mode : Mode} {position start first last : Nat}
    {lexemes : List Lexeme} (hRead : readFrom mode position line = .ok lexemes)
    (hLocate : HeredocHeader.locateIn start lexemes = some (first, last)) :
    Precedes mode position start line first last := by
  induction line generalizing mode position start lexemes with
  | nil =>
      rw [readFrom] at hRead
      rw [locateIn_words (onlyWords_finish hRead)] at hLocate
      cases hLocate
  | cons c rest ih =>
      obtain ⟨later, hLater, rfl⟩ := readFrom_cons_eq_ok.mp hRead
      rcases step_cases mode position c rest with
        hWords | ⟨words, op, hFound, hWords, hOpen, hSequence, hOp⟩
      · -- No operator begins here, so that the place of `<<` is found in what follows.
        rw [locateIn_words_append hWords] at hLocate
        refine (ih hLater hLocate).cons hWords.noSequence fun hOpen hHeredoc => ?_
        exact not_onlyWords_of_heredoc hOpen hHeredoc hWords
      · rw [hFound, List.append_assoc, locateIn_words_append hWords] at hLocate
        by_cases hSame : op = .sequence
        · subst hSame
          rw [hSequence rfl] at hLater
          exact (ih hLater hLocate).separator
        · by_cases hHere : op = .redirect .heredoc
          · subst hHere
            cases hLocate
            obtain ⟨after, rfl, rfl⟩ := Operator.eq_of_read?_heredoc (hOp hSame)
            exact precedes_heredoc hOpen
          · -- Pipes, `&&`, `||` and the other redirections do not end the command.
            have hLater' : HeredocHeader.locateIn start later = some (first, last) := by
              cases op with
              | sequence => exact absurd rfl hSame
              | redirect how =>
                  cases how with
                  | heredoc => exact absurd rfl hHere
                  | _ => exact hLocate
              | _ => exact hLocate
            refine (ih hLater hLater').cons ?_ fun _ hHeredoc => ?_
            · rw [hFound, noSequence_append, noSequence_operator]
              exact ⟨hWords.noSequence, hSame⟩
            · rw [hOp hSame] at hHeredoc
              exact hHere (Option.some.inj hHeredoc)

/-- The command before `<<` has no separator, also after the blanks around it are dropped. -/
theorem noSequence_of_locateIn {line : Text} {first last place : Nat} {lexemes inner : List Lexeme}
    (hRead : read line = .ok lexemes)
    (hLocate : HeredocHeader.locateIn 0 lexemes = some (first, last))
    (hInner : readFrom .between place (Text.strip ((line.take last).drop first)) = .ok inner) :
    NoSequence inner := by
  obtain ⟨before, part, after, found, rfl, rfl, hNo, hPlace⟩ := precedes_of_locateIn hRead hLocate
  have hFirst : first = before.length ∧ readFrom .between first part = .ok found := by
    rcases hPlace with ⟨rfl, rfl, hPart⟩ | ⟨hFirst, hPart⟩
    · exact ⟨rfl, hPart⟩
    · exact ⟨by omega, hPart⟩
  have hPart : ((before ++ (part ++ chr '<' :: chr '<' :: after)).take (0 + before.length + part.length)).drop
      first = part := by
    rw [hFirst.1, Nat.zero_add, List.take_length_add_append, List.drop_left, List.take_left]
  rw [hPart] at hInner
  exact noSequence_strip hFirst.2 hNo hInner

end Lexeme

namespace Heredoc

/-- The command of a header is what stands in front of the operator. -/
theorem command_of_at? {t : Text} {start position : Nat} {header : HeredocHeader}
    (h : HeredocHeader.at? t start position = some header) :
    header.command = Text.strip ((t.take position).drop start) := by
  rw [HeredocHeader.at?] at h
  split at h
  · cases h
  · obtain ⟨found, _, rfl⟩ := Option.map_eq_some_iff.mp h
    rfl

/-- The command of a header has no separator. -/
theorem noSequence_of_findHeader? {before held lines lead rest : List Text} {header : HeredocHeader}
    {lexemes : List Lexeme} (h : findHeader? before held lines = some (lead, header, rest))
    (hRead : Lexeme.read header.command = .ok lexemes) : Lexeme.NoSequence lexemes := by
  fun_induction findHeader? before held lines with
  | case1 => cases h
  | case2 before held line more candidate fault hCandidate ih => exact ih h
  | case3 before held line more candidate found hCandidate hLocate ih => exact ih h
  | case4 before held line more candidate found hCandidate start position hLocate hAt ih => exact ih h
  | case5 before held line more candidate found hCandidate start position hLocate other hAt =>
      cases h
      rw [command_of_at? hAt] at hRead
      exact Lexeme.noSequence_of_locateIn hCandidate hLocate hRead

/-- A parsed heredoc has a header line, the command read from it without the delimiter, and the
redirections that stood in the command. -/
theorem parse_eq_some {t : Text} {d : Heredoc} (h : parse t = .ok (some d)) :
    ∃ lead header rest lexemes, findHeader? [] [] (t.splitOn (chr '\n')) = some (lead, header, rest) ∧
      Lexeme.read header.command = .ok lexemes ∧
      takeRedirections (lexemes.map Lexeme.toWord) = .ok (d.command, d.redirections) := by
  rw [parse] at h
  split at h
  · cases h
  · rename_i lead header rest hHeader
    simp only [bind_eq_ok] at h
    obtain ⟨words, hWords, ⟨command, redirections⟩, hTaken, hSame⟩ := h
    obtain ⟨lexemes, hRead, rfl⟩ := map_eq_ok.mp hWords
    cases hSame
    exact ⟨lead, header, rest, lexemes, hHeader, hRead, hTaken⟩

end Heredoc

end TreeShell
