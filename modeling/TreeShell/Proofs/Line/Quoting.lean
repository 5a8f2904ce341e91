import Mathlib.Data.List.Basic
import TreeShell.Line.Segment
import TreeShell.Proofs.Text

/-! Quoted words. Quotes can be put around every text, and every reader of lines then takes
the text as it is: it is one word for the reader of words, and no loop, no substitution and
no heredoc is found in it, whatever the text looks like. -/
namespace TreeShell

namespace QuoteStyle

def mark : QuoteStyle → CodePoint
  | .single => chr '\''
  | .double => chr '"'

/-- How a character is written between quotes. A single quote is written outside of them. -/
def escape (style : QuoteStyle) (c : CodePoint) : Text :=
  match style with
  | .single => if c = '\'' then [chr '\'', chr '\\', chr '\'', chr '\''] else [c]
  | .double => if c ∈ [chr '\\', chr '"', chr '$', chr '`'] then [chr '\\', c] else [c]

theorem escape_double (c : CodePoint) :
    double.escape c = if Lexeme.escapable c then [chr '\\', c] else [c] := by
  simp [escape, Lexeme.escapable, @eq_comm _ c]

def quote (style : QuoteStyle) (t : Text) : Text :=
  style.mark :: (t.flatMap style.escape ++ [style.mark])

end QuoteStyle

/-- A line of quoted words, with a space between neighbours. -/
def quotedLine (words : List (QuoteStyle × Text)) : Text :=
  Text.join [chr ' '] (words.map fun (style, t) => style.quote t)

theorem quotedLine_cons (style : QuoteStyle) (t : Text) (next : QuoteStyle × Text)
    (words : List (QuoteStyle × Text)) :
    quotedLine ((style, t) :: next :: words) = style.quote t ++ chr ' ' :: quotedLine (next :: words) := by
  simp [quotedLine, Text.join]

/-- The word that a quoted text is read as. -/
def Word.quoted (t : Text) : Word := ⟨t, (Operator.ofText? t).isSome || hasGlob t⟩

namespace Lexeme

def inQuotes (style : QuoteStyle) (w : Draft) (opened : Nat) : Mode :=
  match style with
  | .single => .inSingle w opened
  | .double => .inDouble w opened

/-- A step that puts nothing out is passed over. -/
theorem readFrom_of_step {mode next : Mode} {position : Nat} {c : CodePoint} {rest : Text}
    (h : step mode position c rest = ([], next)) :
    readFrom mode position (c :: rest) = readFrom next (position + 1) rest := by
  rw [readFrom, h]
  change (readFrom next (position + 1) rest).map ([] ++ ·) = _
  cases readFrom next (position + 1) rest <;> rfl

theorem read?_mark (style : QuoteStyle) (rest : Text) :
    Operator.read? (style.mark :: rest) = none := by
  cases style <;> rfl

theorem stepWord_mark (style : QuoteStyle) (w : Draft) (position : Nat) (rest : Text) :
    stepWord w position style.mark rest = inQuotes style w.quote position := by
  cases style <;> rfl

theorem step_between_mark (style : QuoteStyle) (position : Nat) (rest : Text) :
    step .between position style.mark rest =
      ([], inQuotes style ⟨position, [], true⟩ position) := by
  simp only [step, stepBetween, read?_mark, stepWord_mark]
  cases style <;> rfl

theorem not_escapable_iff {c : CodePoint} :
    escapable c = false ↔ c ≠ '\\' ∧ c ≠ '"' ∧ c ≠ '$' ∧ c ≠ '`' := by
  simp [escapable, @eq_comm _ c]

/-- A character between quotes is read as itself, however it is written. A single quote
leaves the quotes and opens new ones, so that the place where they were opened changes. -/
theorem readFrom_escape (style : QuoteStyle) (c : CodePoint) {w : Draft} (hQuoted : w.quoted = true)
    (opened position : Nat) (rest : Text) :
    ∃ opened', readFrom (inQuotes style w opened) position (style.escape c ++ rest) =
      readFrom (inQuotes style (w.push c) opened') (position + (style.escape c).length) rest := by
  cases style with
  | single =>
      by_cases hc : c = '\''
      · subst hc
        obtain ⟨start, letters, quoted⟩ := w
        cases hQuoted
        let w : Draft := ⟨start, letters, true⟩
        refine ⟨position + 3, ?_⟩
        change readFrom (.inSingle w opened) position (chr '\'' :: chr '\\' :: chr '\'' :: chr '\'' :: rest) = _
        rw [readFrom_of_step (show step (.inSingle w opened) position (chr '\'') _ = ([], .inWord w) from rfl),
          readFrom_of_step (show step (.inWord w) _ (chr '\\') _ = ([], .escaped w) from rfl),
          readFrom_of_step (show step (.escaped w) _ (chr '\'') _ = ([], .inWord (w.push (chr '\''))) from rfl),
          readFrom_of_step (show step (.inWord (w.push (chr '\''))) _ (chr '\'') _ =
            ([], .inSingle (w.push (chr '\'')) (position + 3)) from rfl)]
        rfl
      · refine ⟨opened, ?_⟩
        have hEscape : QuoteStyle.single.escape c = [c] := if_neg hc
        have hStep : step (.inSingle w opened) position c rest = ([], .inSingle (w.push c) opened) := by
          simp [step, hc]
        rw [hEscape]
        exact readFrom_of_step hStep
  | double =>
      refine ⟨opened, ?_⟩
      cases hc : escapable c with
      | true =>
          have hEscape : QuoteStyle.double.escape c = [chr '\\', c] := by
            simp [QuoteStyle.escape_double, hc]
          have hStep : step (.inDouble w opened) position (chr '\\') (c :: rest) =
              ([], .escapedInDouble w opened) := by
            simp [step, hc]
          rw [hEscape]
          exact (readFrom_of_step hStep).trans (readFrom_of_step rfl)
      | false =>
          have hEscape : QuoteStyle.double.escape c = [c] := by
            simp [QuoteStyle.escape_double, hc]
          obtain ⟨hBackslash, hMark, hDollar, _⟩ := not_escapable_iff.mp hc
          have hStep : step (.inDouble w opened) position c rest = ([], .inDouble (w.push c) opened) := by
            simp [step, hBackslash, hMark, hDollar]
          rw [hEscape]
          exact readFrom_of_step hStep

/-- Inside of quotes an escaped text is read as the text itself. Where the quotes began and where
they go on is left open, since only errors show it. -/
theorem readFrom_escapes (style : QuoteStyle) (t : Text) {w : Draft} (hQuoted : w.quoted = true)
    (opened position : Nat) (rest : Text) :
    ∃ opened' position', readFrom (inQuotes style w opened) position (t.flatMap style.escape ++ rest) =
      readFrom (inQuotes style ⟨w.start, t.reverse ++ w.letters, true⟩ opened') position' rest := by
  induction t generalizing w opened position with
  | nil =>
      obtain ⟨start, letters, quoted⟩ := w
      cases hQuoted
      exact ⟨opened, position, rfl⟩
  | cons c t ih =>
      obtain ⟨middle, hFirst⟩ := readFrom_escape style c hQuoted opened position
        (t.flatMap style.escape ++ rest)
      obtain ⟨opened', position', hRest⟩ := @ih (w.push c) hQuoted middle
        (position + (style.escape c).length)
      refine ⟨opened', position', ?_⟩
      rw [List.flatMap_cons, List.append_assoc, hFirst, hRest]
      simp [Draft.push]

/-- A word that begins with quotes is read up to where the quotes are closed. -/
theorem readFrom_quote (style : QuoteStyle) (t : Text) (position : Nat) (rest : Text) :
    ∃ position', readFrom .between position (style.quote t ++ rest) =
      readFrom (.inWord ⟨position, t.reverse, true⟩) position' rest := by
  obtain ⟨opened, middle, hBody⟩ := readFrom_escapes style t
    (show (Draft.mk position [] true).quoted = true from rfl) position (position + 1)
    (style.mark :: rest)
  refine ⟨middle + 1, ?_⟩
  have hText : style.quote t ++ rest = style.mark :: (t.flatMap style.escape ++ style.mark :: rest) := by
    simp [QuoteStyle.quote]
  have hClose : step (inQuotes style ⟨position, t.reverse ++ [], true⟩ opened) middle style.mark rest =
      ([], .inWord ⟨position, t.reverse, true⟩) := by
    rw [List.append_nil]
    cases style <;> rfl
  rw [hText, readFrom_of_step (step_between_mark style position _), hBody, readFrom_of_step hClose]

/-- A text cut off between quotes leaves them open. -/
theorem readFrom_open (style : QuoteStyle) (t : Text) (position : Nat) :
    ∃ fault, readFrom .between position (style.mark :: t.flatMap style.escape) = .error fault := by
  obtain ⟨opened, middle, hBody⟩ := readFrom_escapes style t
    (show (Draft.mk position [] true).quoted = true from rfl) position (position + 1) []
  refine ⟨.openQuote style opened, ?_⟩
  rw [← List.append_nil (t.flatMap style.escape),
    readFrom_of_step (step_between_mark style position _), hBody]
  cases style <;> rfl

theorem finish_quoted (position : Nat) (t : Text) :
    Draft.finish ⟨position, t.reverse, true⟩ = .word (Word.quoted t) position true := by
  simp [Draft.finish, Word.quoted]

/-- A word between quotes at the end of a line. -/
theorem readFrom_quote_end (style : QuoteStyle) (t : Text) (position : Nat) :
    readFrom .between position (style.quote t) = .ok [.word (Word.quoted t) position true] := by
  obtain ⟨middle, hWord⟩ := readFrom_quote style t position []
  rw [List.append_nil] at hWord
  rw [hWord, readFrom, ← finish_quoted]
  rfl

/-- Nothing but words was read. -/
def OnlyWords (lexemes : List Lexeme) : Prop :=
  ∀ lexeme ∈ lexemes, ∃ w position quoted, lexeme = .word w position quoted

end Lexeme

/-- A text that is cut at a character which its front does not have is cut behind the front. -/
theorem eq_append_of_append_eq {front back before after : Text} {c : CodePoint} (hFront : c ∉ front)
    (h : front ++ back = before ++ c :: after) :
    ∃ rest, before = front ++ rest ∧ back = rest ++ c :: after := by
  rcases List.append_eq_append_iff.mp h with ⟨rest, rfl, hBack⟩ | ⟨rest, rfl, hRest⟩
  · exact ⟨rest, rfl, hBack⟩
  · cases rest with
    | nil => exact ⟨[], by simp, by simpa using hRest.symm⟩
    | cons d rest =>
        cases hRest
        simp at hFront

namespace QuoteStyle

theorem break_not_mem_escape {style : QuoteStyle} {c : CodePoint} (h : c ≠ '\n') :
    chr '\n' ∉ style.escape c := by
  cases style with
  | single => by_cases hc : c = '\'' <;> simp [escape, hc, Ne.symm h]
  | double => cases hc : Lexeme.escapable c <;> simp [escape_double, hc, Ne.symm h]

theorem escape_break (style : QuoteStyle) : style.escape (chr '\n') = [chr '\n'] := by
  cases style <;> rfl

theorem mark_ne_break (style : QuoteStyle) : style.mark ≠ '\n' := by
  cases style <;> decide

/-- An end of line in a quoted text is one of the text itself. -/
theorem exists_of_escapes_eq {style : QuoteStyle} {t before after : Text}
    (h : t.flatMap style.escape ++ [style.mark] = before ++ chr '\n' :: after) :
    ∃ front : Text, before = front.flatMap style.escape := by
  induction t generalizing before with
  | nil =>
      obtain ⟨rest, rfl, hRest⟩ := eq_append_of_append_eq (by simp [mark_ne_break style |>.symm])
        ((List.append_nil _).trans h)
      simp at hRest
  | cons c t ih =>
      rw [List.flatMap_cons, List.append_assoc] at h
      by_cases hc : c = '\n'
      · subst hc
        rw [escape_break] at h
        cases before with
        | nil => exact ⟨[], rfl⟩
        | cons d before =>
            obtain ⟨rfl, hRest⟩ := List.cons.inj h
            obtain ⟨front, rfl⟩ := ih hRest
            exact ⟨chr '\n' :: front, by rw [List.flatMap_cons, escape_break]; rfl⟩
      · obtain ⟨rest, rfl, hRest⟩ := eq_append_of_append_eq (break_not_mem_escape hc) h
        obtain ⟨front, rfl⟩ := ih hRest
        exact ⟨c :: front, by rw [List.flatMap_cons]⟩

end QuoteStyle

namespace Lexeme

/-- A quoted text that is cut at a line end inside of it cannot be read: its quote stays open. -/
theorem readFrom_cut_quote {style : QuoteStyle} {t before after : Text}
    (h : style.quote t = before ++ chr '\n' :: after) (position : Nat) :
    ∃ fault, readFrom .between position before = .error fault := by
  have hMark : chr '\n' ∉ [style.mark] := by simp [Ne.symm style.mark_ne_break]
  obtain ⟨rest, rfl, hRest⟩ := eq_append_of_append_eq hMark h
  obtain ⟨front, rfl⟩ := QuoteStyle.exists_of_escapes_eq hRest
  exact readFrom_open style front position

end Lexeme

namespace Heredoc

/-- Lines of a text that can be read only as a whole are held back until the last one. -/
theorem findHeader?_of_open {held lines : List Text} {lexemes : List Lexeme} (hLines : lines ≠ [])
    (hCut : ∀ front back, lines = front ++ back → front ≠ [] → back ≠ [] →
      ∃ fault, Lexeme.read (Text.joinLines (held ++ front)) = .error fault)
    (hWhole : Lexeme.read (Text.joinLines (held ++ lines)) = .ok lexemes)
    (hNone : HeredocHeader.locateIn 0 lexemes = none) (before : List Text) :
    findHeader? before held lines = none := by
  induction lines generalizing held with
  | nil => exact absurd rfl hLines
  | cons line lines ih =>
      rw [findHeader?]
      cases lines with
      | nil =>
          simp only [hWhole, hNone]
          rfl
      | cons next lines =>
          obtain ⟨fault, hFault⟩ := hCut [line] (next :: lines) rfl (by simp) (by simp)
          simp only [hFault]
          refine ih (by simp) ?_ (by simpa using hWhole)
          intro front back hSplit hFront hBack
          obtain ⟨fault, hFault⟩ := hCut (line :: front) back (by rw [hSplit]; rfl) (by simp) hBack
          exact ⟨fault, by simpa using hFault⟩

end Heredoc

namespace Substitution

/-- The readers of substitutions pass over a character between quotes. -/
theorem spansFrom_escape (style : QuoteStyle) (c : CodePoint) (position : Nat) (rest : Text) :
    spansFrom 0 (style = .single) (style = .double) position (style.escape c ++ rest) =
      spansFrom 0 (style = .single) (style = .double)
        (position + (style.escape c).length) rest := by
  cases style with
  | single =>
      by_cases hc : c = '\''
      · subst hc
        simp [QuoteStyle.escape, spansFrom]
      · simp [QuoteStyle.escape, hc, spansFrom]
  | double =>
      cases hc : Lexeme.escapable c with
      | true => simp [QuoteStyle.escape_double, hc, spansFrom]
      | false =>
          obtain ⟨hBackslash, hMark, hDollar, _⟩ := Lexeme.not_escapable_iff.mp hc
          simp [QuoteStyle.escape_double, hc, spansFrom, opens, hBackslash, hMark, Ne.symm hDollar]

/-- Within its quotes an escaped text holds no span. -/
theorem spansFrom_escapes (style : QuoteStyle) (t : Text) (position : Nat) (rest : Text) :
    ∃ position', spansFrom 0 (style = .single) (style = .double) position
        (t.flatMap style.escape ++ rest) =
      spansFrom 0 (style = .single) (style = .double) position' rest := by
  induction t generalizing position with
  | nil => exact ⟨position, rfl⟩
  | cons c t ih =>
      obtain ⟨position', hRest⟩ := ih (position + (style.escape c).length)
      refine ⟨position', ?_⟩
      rw [List.flatMap_cons, List.append_assoc, spansFrom_escape, hRest]

/-- A quoted text holds no span: single quotes hide everything, and within double quotes every
dollar sign is escaped. -/
theorem spansFrom_quote (style : QuoteStyle) (t : Text) (position : Nat) (rest : Text) :
    ∃ position', spansFrom 0 false false position (style.quote t ++ rest) =
      spansFrom 0 false false position' rest := by
  obtain ⟨middle, hBody⟩ := spansFrom_escapes style t (position + 1) (style.mark :: rest)
  refine ⟨middle + 1, ?_⟩
  have hText : style.quote t ++ rest = style.mark :: (t.flatMap style.escape ++ style.mark :: rest) := by
    simp [QuoteStyle.quote]
  have hOpen (more : Text) : spansFrom 0 false false position (style.mark :: more) =
      spansFrom 0 (style = .single) (style = .double) (position + 1) more := by
    cases style <;> simp [QuoteStyle.mark, spansFrom]
  have hClose : spansFrom 0 (style = .single) (style = .double) middle (style.mark :: rest) =
      spansFrom 0 false false (middle + 1) rest := by
    cases style <;> simp [QuoteStyle.mark, spansFrom]
  rw [hText, hOpen, hBody, hClose]

end Substitution

/-- No reader takes a mark for a blank. -/
theorem QuoteStyle.isBlank_mark (style : QuoteStyle) : Text.isBlank style.mark = false := by
  cases style <;> decide

/-- A line of quoted words begins with a quote. -/
theorem exists_quotedLine_eq {words : List (QuoteStyle × Text)} (hWords : words ≠ []) :
    ∃ (style : QuoteStyle) (rest : Text), quotedLine words = style.mark :: rest := by
  cases words with
  | nil => exact absurd rfl hWords
  | cons word words =>
      obtain ⟨style, t⟩ := word
      cases words with
      | nil => exact ⟨style, _, rfl⟩
      | cons next words => exact ⟨style, _, quotedLine_cons style t next words⟩

/-- A line that begins with another letter is no loop. -/
theorem ForLoop.ofLine?_of_head {c : CodePoint} (hBlank : Text.isBlank c = false) (hc : c ≠ 'f')
    (rest : Text) : ofLine? (c :: rest) = none := by
  have hStrip : Text.strip (c :: rest) = c :: Text.dropEndWhile Text.isBlank rest := by
    rw [Text.strip, Text.trimWhile, List.dropWhile_cons_of_neg (by simp [hBlank]),
      Text.dropEndWhile_cons hBlank]
  have hFor : Text.dropStart? "for" (c :: Text.dropEndWhile Text.isBlank rest) = none :=
    if_neg (Ne.symm hc)
  rw [ofLine?, hStrip, read?, hFor]
  rfl

/-- A line of quoted words is no loop. -/
theorem ForLoop.ofLine?_quotedLine {words : List (QuoteStyle × Text)} (hWords : words ≠ []) :
    ofLine? (quotedLine words) = none := by
  obtain ⟨style, rest, hLine⟩ := exists_quotedLine_eq hWords
  have hMark : style.mark ≠ 'f' := by cases style <;> decide
  rw [hLine, ofLine?_of_head style.isBlank_mark hMark]

theorem allBlank_quotedLine {words : List (QuoteStyle × Text)} (hWords : words ≠ []) :
    Text.allBlank (quotedLine words) = false := by
  obtain ⟨style, rest, hLine⟩ := exists_quotedLine_eq hWords
  rw [hLine, Text.allBlank, List.all_cons, style.isBlank_mark, Bool.false_and]

/-- A quoted word stands for no operator. -/
theorem Word.operator?_quoted (t : Text) : (Word.quoted t).operator? = none := by
  rw [Word.operator?, Word.quoted]
  cases hText : Operator.ofText? t <;> simp

/-- Words among which no operator stands are one segment. -/
theorem Segment.groupFrom_of_plain {words : List Word} (hWords : ∀ w ∈ words, w.operator? = none)
    (current : List Word) (h : current ≠ [] ∨ words ≠ []) :
    groupFrom current words = [⟨.close, current.reverse ++ words, none⟩] := by
  induction words generalizing current with
  | nil =>
      have hCurrent : current ≠ [] := by simpa using h
      simp [groupFrom, hCurrent]
  | cons w words ih =>
      have hJoint : w.joint? = none := by
        rw [Word.joint?, hWords w List.mem_cons_self]
        rfl
      have hRest := ih fun other hOther => hWords other (List.mem_cons_of_mem _ hOther)
      rw [groupFrom, hJoint]
      simp [hRest (w :: current) (Or.inl (by simp))]

/-- Nothing is taken out of words among which no operator stands. -/
theorem Segment.group_of_plain {words : List Word} (hWords : ∀ w ∈ words, w.operator? = none)
    (hSome : words ≠ []) : group words = [⟨.close, words, none⟩] := by
  rw [group, groupFrom_of_plain hWords [] (Or.inr hSome)]
  rfl

/-- Words that are no operators are a command without redirections. -/
theorem takeRedirections_of_plain {words : List Word} (hWords : ∀ w ∈ words, w.operator? = none) :
    takeRedirections words = .ok (words, []) := by
  induction words with
  | nil => rfl
  | cons w words ih =>
      have hRest := ih fun other hOther => hWords other (List.mem_cons_of_mem _ hOther)
      simp only [takeRedirections, hWords w List.mem_cons_self, hRest]
      rfl

end TreeShell
