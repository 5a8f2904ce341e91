import Mathlib.Data.List.Forall2
import TreeShell.Proofs.Line.Quoting

/-! Words as they are written on a line: bare, when no character of them means anything there, or
between quotes. A line of such words and of pipes, with spaces between them, is read as these words,
and no substitution and no heredoc is found in it. -/
namespace TreeShell

/-- The characters that do not stand for themselves in a word without quotes. -/
def meaningful : Text :=
  [chr ' ', chr '\t', chr '\r', chr '\n', chr '\\', chr '\'', chr '"', chr '$', chr '|', chr '&', chr ';', chr '<', chr '>', chr '*', chr '?', chr '[']

/-- A text that stands for itself without quotes. -/
structure IsBare (t : Text) : Prop where
  ne_nil : t ≠ []
  plain : ∀ c ∈ t, c ∉ meaningful

instance (t : Text) : Decidable (IsBare t) :=
  decidable_of_iff ((!t.isEmpty && t.all fun c => !meaningful.contains c) = true)
    ⟨fun h => ⟨by simp_all, by simp_all⟩, fun h => by simpa using ⟨h.ne_nil, h.plain⟩⟩

namespace Operator

/-- How operators begin: with a meaningful character, or with a digit before one. -/
theorem exists_text_eq (op : Operator) : ∃ c tail, op.text = c :: tail ∧
    (c ∈ meaningful ∨ c = '2' ∧ tail.head? = some (chr '>')) := by
  cases op with
  | redirect how => cases how <;> exact ⟨_, _, rfl, by decide⟩
  | _ => exact ⟨_, _, rfl, by decide⟩

/-- No operator begins with a character without meaning, but for the `2` in front of a redirection.
-/
theorem read?_eq_none {c : CodePoint} (hc : c ∉ meaningful) {rest : Text}
    (hRest : c = '2' → rest.head? ≠ some (chr '>')) : read? (c :: rest) = none := by
  rw [read?, List.find?_eq_none]
  intro op _ hBegins
  obtain ⟨first, tail, hText, hFirst⟩ := op.exists_text_eq
  rw [hText, List.isPrefixOf_iff_prefix, List.cons_prefix_cons] at hBegins
  obtain ⟨rfl, later, rfl⟩ := hBegins
  rcases hFirst with hMeaning | ⟨hDigit, hHead⟩
  · exact hc hMeaning
  · exact hRest hDigit (by rw [List.head?_append, hHead]; rfl)

/-- A bare word spells no operator. -/
theorem ofText?_of_bare {t : Text} (h : IsBare t) : ofText? t = none := by
  rw [ofText?, List.find?_eq_none]
  intro op _ hSame
  obtain ⟨first, tail, hText, hFirst⟩ := op.exists_text_eq
  rw [beq_iff_eq, hText] at hSame
  have hPlain := h.plain
  rw [← hSame] at hPlain
  rcases hFirst with hMeaning | ⟨_, hHead⟩
  · exact hPlain first List.mem_cons_self hMeaning
  · exact hPlain (chr '>') (List.mem_cons_of_mem _ (List.mem_of_head? hHead)) (by decide)

end Operator

theorem hasGlob_of_bare {t : Text} (h : IsBare t) : hasGlob t = false := by
  rw [hasGlob, List.any_eq_false]
  intro c hc hGlob
  apply h.plain c hc
  simp only [isGlobChar, Bool.or_eq_true, beq_iff_eq] at hGlob
  rcases hGlob with (rfl | rfl) | rfl <;> decide

namespace Lexeme

section Letter

variable {c : CodePoint} (hc : c ∉ meaningful)
include hc

theorem isSeparator_letter : (isSeparator c || c == '\n') = false := by
  simp only [meaningful, List.mem_cons, not_or] at hc
  simp [isSeparator, hc]

theorem stepWord_letter (w : Draft) (position : Nat) (rest : Text) :
    stepWord w position c rest = .inWord (w.push c) := by
  simp only [meaningful, List.mem_cons, not_or] at hc
  simp [stepWord, hc]

/-- In a word, a character that means nothing is a letter, whatever follows it. -/
theorem step_letter (w : Draft) (position : Nat) (rest : Text) :
    step (.inWord w) position c rest = ([], .inWord (w.push c)) := by
  have hEnds : endsWord c rest = false := by
    rw [endsWord, isSeparator_letter hc, Bool.false_or]
    by_cases hDigit : c = '2'
    · rw [hDigit]
      rfl
    · rw [Operator.read?_eq_none hc fun hSame => absurd hSame hDigit, Option.isSome_none,
        Bool.and_false]
  rw [step, hEnds, if_neg Bool.false_ne_true, stepWord_letter hc]

/-- A word begins with a character that means nothing, unless it is a digit before a redirection. -/
theorem step_first (position : Nat) {rest : Text} (hRest : c = '2' → rest.head? ≠ some (chr '>')) :
    step .between position c rest = ([], .inWord ⟨position, [c], false⟩) := by
  have hBlank := Bool.or_eq_false_iff.mp (isSeparator_letter hc)
  rw [step, stepBetween, hBlank.1, hBlank.2, if_neg Bool.false_ne_true, if_neg Bool.false_ne_true,
    Operator.read?_eq_none hc hRest, stepWord_letter hc]
  rfl

end Letter

/-- Characters without a meaning of their own are gathered in the word at hand. -/
theorem readFrom_letters {letters : Text} (h : ∀ c ∈ letters, c ∉ meaningful) (w : Draft)
    (position : Nat) (rest : Text) :
    readFrom (.inWord w) position (letters ++ rest) =
      readFrom (.inWord { w with letters := letters.reverse ++ w.letters })
        (position + letters.length) rest := by
  induction letters generalizing w position with
  | nil => rfl
  | cons c letters ih =>
      obtain ⟨hc, hLetters⟩ := List.forall_mem_cons.mp h
      rw [List.cons_append, readFrom_of_step (step_letter hc w position _),
        ih hLetters (w.push c) (position + 1)]
      simp [Draft.push, Nat.add_comm, Nat.add_left_comm]

/-- A bare word is read up to where it ends. -/
theorem readFrom_bare {t : Text} (h : IsBare t) (position : Nat) {rest : Text}
    (hRest : rest.head? ≠ some (chr '>')) :
    readFrom .between position (t ++ rest) =
      readFrom (.inWord ⟨position, t.reverse, false⟩) (position + t.length) rest := by
  obtain ⟨c, letters, rfl⟩ := List.exists_cons_of_ne_nil h.ne_nil
  obtain ⟨hc, hLetters⟩ := List.forall_mem_cons.mp h.plain
  have hNext : c = '2' → (letters ++ rest).head? ≠ some (chr '>') := by
    intro _ hHead
    cases letters with
    | nil => exact hRest hHead
    | cons d letters =>
        obtain rfl : d = '>' := Option.some.inj hHead
        exact hLetters (chr '>') List.mem_cons_self (by decide)
  rw [List.cons_append, readFrom_of_step (step_first hc position hNext), readFrom_letters hLetters]
  simp [Nat.add_comm, Nat.add_left_comm]

end Lexeme

/-- The readers of substitutions pass over characters that mean nothing. -/
theorem Substitution.spansFrom_letters {letters : Text} (h : ∀ c ∈ letters, c ∉ meaningful)
    (position : Nat) (rest : Text) :
    spansFrom 0 false false position (letters ++ rest) =
      spansFrom 0 false false (position + letters.length) rest := by
  induction letters generalizing position with
  | nil => rfl
  | cons c letters ih =>
      obtain ⟨hc, hLetters⟩ := List.forall_mem_cons.mp h
      simp only [meaningful, List.mem_cons, not_or] at hc
      have hStep : spansFrom 0 false false position (c :: (letters ++ rest)) =
          spansFrom 0 false false (position + 1) (letters ++ rest) := by
        simp [spansFrom, opens, List.isPrefixOf, hc, Ne.symm hc.2.2.2.2.2.2.2.1]
      rw [List.cons_append, hStep, ih hLetters, List.length_cons, Nat.add_assoc,
        Nat.add_comm 1]

/-- How a text can be written as a word of a line. -/
inductive Spells : (written t : Text) → Prop where
  | bare {t : Text} (bare : IsBare t) : Spells t t
  | quoted (style : QuoteStyle) (t : Text) : Spells (style.quote t) t

namespace Spells

variable {written t : Text} (h : Spells written t)
include h

/-- A written word is read up to where it ends, and is then the text, marked where it has to be. -/
theorem readFrom (position : Nat) {rest : Text} (hRest : rest.head? ≠ some (chr '>')) :
    ∃ position' quoted, Lexeme.readFrom .between position (written ++ rest) =
        Lexeme.readFrom (.inWord ⟨position, t.reverse, quoted⟩) position' rest ∧
      Lexeme.Draft.finish ⟨position, t.reverse, quoted⟩ =
        .word (Word.quoted t) position quoted := by
  cases h with
  | bare bare =>
      refine ⟨_, false, Lexeme.readFrom_bare bare position hRest, ?_⟩
      simp [Lexeme.Draft.finish, Word.quoted, Operator.ofText?_of_bare bare, hasGlob_of_bare bare]
  | quoted style t =>
      obtain ⟨position', hRead⟩ := Lexeme.readFrom_quote style t position rest
      exact ⟨position', true, hRead, Lexeme.finish_quoted position t⟩

theorem spansFrom (position : Nat) (rest : Text) :
    ∃ position', Substitution.spansFrom 0 false false position (written ++ rest) =
      Substitution.spansFrom 0 false false position' rest := by
  cases h with
  | bare bare => exact ⟨_, Substitution.spansFrom_letters bare.plain position rest⟩
  | quoted style t => exact Substitution.spansFrom_quote style t position rest

/-- A written word that is cut at an end of line leaves quotes open. -/
theorem readFrom_cut {before after : Text} (hCut : written = before ++ chr '\n' :: after)
    (position : Nat) : ∃ fault, Lexeme.readFrom .between position before = .error fault := by
  cases h with
  | bare bare =>
      have hMem : chr '\n' ∈ written := by
        rw [hCut]
        exact List.mem_append_right before List.mem_cons_self
      exact absurd (by decide) (bare.plain (chr '\n') hMem)
  | quoted style t => exact Lexeme.readFrom_cut_quote hCut position

end Spells

/-- What is written between the spaces of a line, and what it is read as: a word, or a pipe. -/
inductive ReadsAs : (written : Text) → (w : Word) → Prop where
  | word {written t : Text} (spelled : Spells written t) : ReadsAs written (Word.quoted t)
  | pipe : ReadsAs [chr '|'] (.plain [chr '|'])

/-- A lexeme that announces no heredoc and ends no command before one. -/
def Lexeme.IsQuiet (lexeme : Lexeme) : Prop :=
  ∀ start rest, HeredocHeader.locateIn start (lexeme :: rest) = HeredocHeader.locateIn start rest

namespace ReadsAs

variable {written : Text} {w : Word} (h : ReadsAs written w)
include h

/-- What stands before a space is read as one lexeme. -/
theorem readFrom_space (position : Nat) (rest : Text) :
    ∃ lexeme position', lexeme.toWord = w ∧ lexeme.IsQuiet ∧
      Lexeme.readFrom .between position (written ++ chr ' ' :: rest) =
        (Lexeme.readFrom .between position' rest).map (lexeme :: ·) := by
  cases h with
  | @word _ t spelled =>
      obtain ⟨middle, quoted, hRead, hFinish⟩ :=
        spelled.readFrom position (show (chr ' ' :: rest).head? ≠ some (chr '>') by simp)
      refine ⟨.word (Word.quoted t) position quoted, middle + 1, rfl, fun _ _ => rfl, ?_⟩
      rw [hRead, Lexeme.readFrom, ← hFinish]
      rfl
  | pipe =>
      refine ⟨.operator .pipe position, position + 2, rfl, fun _ _ => rfl, ?_⟩
      have hSpace : Lexeme.readFrom .between (position + 1) (chr ' ' :: rest) =
          Lexeme.readFrom .between (position + 2) rest := Lexeme.readFrom_of_step rfl
      rw [← hSpace]
      rfl

/-- What stands at the end of a line is read as one lexeme. -/
theorem readFrom_end (position : Nat) :
    ∃ lexeme, lexeme.toWord = w ∧ lexeme.IsQuiet ∧
      Lexeme.readFrom .between position written = .ok [lexeme] := by
  cases h with
  | @word _ t spelled =>
      obtain ⟨middle, quoted, hRead, hFinish⟩ :=
        spelled.readFrom position (show ([] : Text).head? ≠ some (chr '>') by simp)
      refine ⟨.word (Word.quoted t) position quoted, rfl, fun _ _ => rfl, ?_⟩
      rw [List.append_nil] at hRead
      rw [hRead, ← hFinish]
      rfl
  | pipe => exact ⟨.operator .pipe position, rfl, fun _ _ => rfl, rfl⟩

theorem spansFrom (position : Nat) (rest : Text) :
    ∃ position', Substitution.spansFrom 0 false false position (written ++ rest) =
      Substitution.spansFrom 0 false false position' rest := by
  cases h with
  | word spelled => exact spelled.spansFrom position rest
  | pipe => exact ⟨position + 1, by simp [Substitution.spansFrom, Substitution.opens]⟩

theorem readFrom_cut {before after : Text} (hCut : written = before ++ chr '\n' :: after)
    (position : Nat) : ∃ fault, Lexeme.readFrom .between position before = .error fault := by
  cases h with
  | word spelled => exact spelled.readFrom_cut hCut position
  | pipe =>
      have hMem : chr '\n' ∈ [chr '|'] := by
        rw [hCut]
        exact List.mem_append_right before List.mem_cons_self
      exact absurd hMem (by decide)

end ReadsAs

/-- A line of what has been written, with spaces between. -/
def spacedLine (written : List Text) : Text := Text.join [chr ' '] written

theorem spacedLine_cons (first next : Text) (rest : List Text) :
    spacedLine (first :: next :: rest) = first ++ chr ' ' :: spacedLine (next :: rest) := by
  simp [spacedLine, Text.join]

section Line

variable {written : List Text} {words : List Word}

/-- A line is read as what stands on it, one lexeme for each. -/
theorem readFrom_spacedLine (h : List.Forall₂ ReadsAs written words) (hSome : written ≠ [])
    (position : Nat) :
    ∃ lexemes, Lexeme.readFrom .between position (spacedLine written) = .ok lexemes ∧
      lexemes.map Lexeme.toWord = words ∧ ∀ lexeme ∈ lexemes, lexeme.IsQuiet := by
  induction h generalizing position with
  | nil => exact absurd rfl hSome
  | @cons first w written words hFirst hRest ih =>
      cases hRest with
      | nil =>
          obtain ⟨lexeme, hWord, hQuiet, hRead⟩ := hFirst.readFrom_end position
          exact ⟨[lexeme], hRead, by simp [hWord], by simpa using hQuiet⟩
      | @cons next _ written _ _ _ =>
          obtain ⟨lexeme, later, hWord, hQuiet, hRead⟩ :=
            hFirst.readFrom_space position (spacedLine (next :: written))
          obtain ⟨lexemes, hLexemes, hWords, hAll⟩ := ih (List.cons_ne_nil _ _) later
          refine ⟨lexeme :: lexemes, ?_, by simp [hWord, hWords], by simpa using ⟨hQuiet, hAll⟩⟩
          rw [spacedLine_cons, hRead, hLexemes]
          rfl

/-- A line that is cut at an end of line leaves quotes open. -/
theorem readFrom_cut_spacedLine (h : List.Forall₂ ReadsAs written words) {before after : Text}
    (hCut : spacedLine written = before ++ chr '\n' :: after) (position : Nat) :
    ∃ fault, Lexeme.readFrom .between position before = .error fault := by
  induction h generalizing before position with
  | nil => simp [spacedLine, Text.join] at hCut
  | @cons first w written words hFirst hRest ih =>
      cases hRest with
      | nil => exact hFirst.readFrom_cut hCut position
      | @cons next _ written _ _ _ =>
          rw [spacedLine_cons] at hCut
          rcases List.append_eq_append_iff.mp hCut with ⟨rest, rfl, hBehind⟩ | ⟨rest, hIn, hBehind⟩
          · -- The cut is behind the space.
            obtain ⟨more, rfl, hMore⟩ :=
              eq_append_of_append_eq (show chr '\n' ∉ [chr ' '] by decide) hBehind
            obtain ⟨lexeme, later, _, _, hRead⟩ := hFirst.readFrom_space position more
            obtain ⟨fault, hFault⟩ := ih hMore later
            refine ⟨fault, ?_⟩
            rw [List.singleton_append, hRead, hFault]
            rfl
          · -- The cut is before the space.
            cases rest with
            | nil => cases hBehind
            | cons c rest =>
                cases hBehind
                exact hFirst.readFrom_cut hIn position

/-- Quiet lexemes have no heredoc among them. -/
theorem locateIn_quiet {lexemes : List Lexeme} (h : ∀ lexeme ∈ lexemes, lexeme.IsQuiet) (start : Nat) :
    HeredocHeader.locateIn start lexemes = none := by
  induction lexemes with
  | nil => rfl
  | cons lexeme lexemes ih =>
      obtain ⟨hFirst, hRest⟩ := List.forall_mem_cons.mp h
      rw [hFirst start lexemes]
      exact ih hRest

/-- A line of words that are written down has no substitution. -/
theorem spansFrom_spacedLine (h : List.Forall₂ ReadsAs written words) (position : Nat) :
    Substitution.spansFrom 0 false false position (spacedLine written) = ([], none) := by
  induction h generalizing position with
  | nil => rfl
  | @cons first w written words hFirst hRest ih =>
      cases hRest with
      | nil =>
          obtain ⟨position', hSpans⟩ := hFirst.spansFrom position []
          rw [List.append_nil] at hSpans
          exact hSpans
      | @cons next _ written _ _ _ =>
          obtain ⟨position', hSpans⟩ :=
            hFirst.spansFrom position (chr ' ' :: spacedLine (next :: written))
          have hSpace (rest : Text) : Substitution.spansFrom 0 false false position' (chr ' ' :: rest) =
              Substitution.spansFrom 0 false false (position' + 1) rest := by
            simp [Substitution.spansFrom, Substitution.opens]
          rw [spacedLine_cons, hSpans, hSpace, ih]

/-- A line that is read as its words alone: nothing in it is expanded, and no body follows it. -/
structure ReadsStraight (line : Text) (words : List Word) : Prop where
  words_eq : lineWords line = .ok words
  noHeredoc : Heredoc.parse line = .ok none
  noSpans : Substitution.spans line = ([], none)

theorem ReadsStraight.segments_eq {line : Text} (h : ReadsStraight line words) :
    Segment.ofLine line = .ok (Segment.group words) := by
  rw [Segment.ofLine, h.words_eq]
  rfl

/-- Words that are written with blanks between them are read as these words, with nothing to expand
and no heredoc. -/
theorem readsStraight_spacedLine (h : List.Forall₂ ReadsAs written words) (hSome : written ≠ []) :
    ReadsStraight (spacedLine written) words := by
  obtain ⟨lexemes, hRead, hWords, hQuiet⟩ := readFrom_spacedLine h hSome 0
  refine ⟨?_, ?_, spansFrom_spacedLine h 0⟩
  · rw [lineWords, Lexeme.read, hRead, ← hWords]
    rfl
  · have hJoin := Text.joinLines_splitOn (spacedLine written)
    have hWhole : Lexeme.read (Text.joinLines ([] ++ (spacedLine written).splitOn (chr '\n'))) =
        .ok lexemes := by
      rw [List.nil_append, hJoin]
      exact hRead
    have hNone : Heredoc.findHeader? [] [] ((spacedLine written).splitOn (chr '\n')) = none := by
      refine Heredoc.findHeader?_of_open (Text.splitOn_ne_nil _ _) ?_ hWhole
        (locateIn_quiet hQuiet 0) []
      intro front back hSplit hFront hBack
      rw [hSplit, Text.joinLines_append hFront hBack] at hJoin
      exact readFrom_cut_spacedLine h hJoin.symm 0
    rw [Heredoc.parse, hNone]

/-- A line of quoted words is read as these words, with nothing to expand and no heredoc. -/
theorem readsStraight_quotedLine {words : List (QuoteStyle × Text)} (hWords : words ≠ []) :
    ReadsStraight (quotedLine words) (words.map fun word => Word.quoted word.2) := by
  have hLine : quotedLine words = spacedLine (words.map fun word => word.1.quote word.2) := rfl
  have hRead : List.Forall₂ ReadsAs (words.map fun word => word.1.quote word.2)
      (words.map fun word => Word.quoted word.2) := by
    rw [List.forall₂_map_left_iff, List.forall₂_map_right_iff, List.forall₂_same]
    exact fun word _ => .word (.quoted word.1 word.2)
  rw [hLine]
  exact readsStraight_spacedLine hRead (by simpa using hWords)

end Line

/-- Words among which no operator stands are the segment before a joint. -/
theorem Segment.groupFrom_of_joint {words : List Word} (hWords : ∀ w ∈ words, w.operator? = none)
    {w : Word} {joint : Joint} (hJoint : w.joint? = some joint) (current rest : List Word)
    (h : current ≠ [] ∨ words ≠ []) :
    groupFrom current (words ++ w :: rest) =
      ⟨joint, current.reverse ++ words, none⟩ :: groupFrom [] rest := by
  induction words generalizing current with
  | nil =>
      have hCurrent : current ≠ [] := by simpa using h
      simp [groupFrom, hJoint, hCurrent]
  | cons first words ih =>
      have hPart : first.joint? = none := by
        rw [Word.joint?, hWords first List.mem_cons_self]
        rfl
      have hRest := ih fun other hOther => hWords other (List.mem_cons_of_mem _ hOther)
      rw [List.cons_append, groupFrom, hPart]
      simp [hRest (first :: current) (Or.inl (by simp))]

end TreeShell
