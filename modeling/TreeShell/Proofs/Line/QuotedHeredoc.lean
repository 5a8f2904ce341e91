import TreeShell.Proofs.Line.Heredoc
import TreeShell.Proofs.Line.Substitution

/-! A command whose body stands behind a delimiter between quotes. The body is what stands
before the line that repeats the delimiter, whatever is written in it. The quotes do not
protect it from substitutions, which are searched for before anything else. -/
namespace TreeShell

namespace Text

/-- Whether no character lies in a range of both. -/
def Ranges.apart (first second : Ranges) : Bool :=
  first.all fun (a, b) => second.all fun (c, d) => b < c || d < a

/-- Ranges that are apart have no code point in common. -/
theorem Ranges.not_covers {first second : Ranges} (h : first.apart second = true) {c : CodePoint}
    (hSecond : second.covers c = true) : first.covers c = false := by
  rw [Bool.eq_false_iff]
  intro hFirst
  obtain ⟨⟨a, b⟩, hRange, hIn⟩ := List.any_eq_true.mp hFirst
  obtain ⟨⟨d, e⟩, hOther, hAlso⟩ := List.any_eq_true.mp hSecond
  have hApart := List.all_eq_true.mp (List.all_eq_true.mp h _ hRange) _ hOther
  simp only [Bool.and_eq_true, Bool.or_eq_true, decide_eq_true_eq] at hIn hAlso hApart
  omega

theorem blankRanges_apart : blankRanges.apart alphanumericRanges = true := by decide +kernel

/-- Letters and digits are covered by the table, also those that the table is not asked about. -/
theorem covers_of_isAlphanumeric {c : CodePoint} (h : isAlphanumeric c = true) :
    alphanumericRanges.covers c = true := by
  rw [isAlphanumeric] at h
  split at h
  · apply List.any_eq_true.mpr
    rcases CodePoint.range_of_isAlphanum h with hUpper | hLower | hDigit
    · exact ⟨(0x41, 0x5a), .tail _ (.head _), by simpa using hUpper⟩
    · exact ⟨(0x61, 0x7a), .tail _ (.tail _ (.head _)), by simpa using hLower⟩
    · exact ⟨(0x30, 0x39), .head _, by simpa using hDigit⟩
  · exact h

/-- No character of an identifier is a blank. -/
theorem isBlank_of_isWordChar {c : CodePoint} (h : isWordChar c = true) : isBlank c = false := by
  rw [isWordChar, Bool.or_eq_true] at h
  rcases h with h | h
  · exact Ranges.not_covers blankRanges_apart (covers_of_isAlphanumeric h)
  · rw [eq_of_beq h]
    decide

theorem not_mem_of_isWordChar {t : Text} {c : CodePoint} (h : ∀ c ∈ t, isWordChar c = true)
    (hc : isWordChar c = false) : c ∉ t := by
  intro hMem
  rw [h c hMem] at hc
  cases hc

/-- A word has no blanks to strip. -/
theorem stripEnd_of_isWordChar {t : Text} (h : ∀ c ∈ t, isWordChar c = true) : stripEnd t = t := by
  have hKept : t.reverse.dropWhile isBlank = t.reverse := by
    cases hReverse : t.reverse with
    | nil => rfl
    | cons c rest =>
        have hMem : c ∈ t := by
          rw [← List.mem_reverse, hReverse]
          exact List.mem_cons_self
        exact List.dropWhile_cons_of_neg (by simp [isBlank_of_isWordChar (h c hMem)])
  rw [stripEnd, dropEndWhile, hKept, List.reverse_reverse]

end Text

/-- Whether a line closes a body: it is the delimiter with nothing but blanks behind it, or it
goes on behind the delimiter after a space or a tab. -/
def Closes (delimiter line : Text) : Prop :=
  Text.stripEnd line = delimiter ∨ delimiter ++ [chr ' '] <+: line ∨ delimiter ++ [chr '\t'] <+: line

instance (delimiter line : Text) : Decidable (Closes delimiter line) :=
  inferInstanceAs (Decidable (_ ∨ _ ∨ _))

namespace HeredocHeader

/-- Without stripping of tabs a line stays in the body unless it closes the body as it stands. -/
theorem closing?_eq_none {header : HeredocHeader} (hTabs : header.stripTabs = false) {line : Text}
    (h : ¬ Closes header.delimiter line) : header.closing? line = none := by
  rw [Closes, not_or] at h
  have hLine : header.bodyLine line = line := by rw [bodyLine, hTabs, if_neg Bool.false_ne_true]
  rw [closing?, hLine, if_neg (by simpa using h.1)]
  split
  · rename_i c rest hDrop
    have hText := Text.eq_append_of_dropStart? hDrop
    rw [if_neg]
    intro hBlank
    have hBegins : header.delimiter ++ [c] <+: line := ⟨rest, by rw [hText, List.append_assoc]; rfl⟩
    apply h.2
    rcases Bool.or_eq_true_iff.mp hBlank with hc | hc
    · exact Or.inl (eq_of_beq hc ▸ hBegins)
    · exact Or.inr (eq_of_beq hc ▸ hBegins)
  · rfl

/-- A body ends at the first line that closes it. -/
theorem divide_append {header : HeredocHeader} {lines : List Text} {last after : Text}
    (hLines : ∀ line ∈ lines, header.closing? line = none) (hLast : header.closing? last = some after)
    (rest : List Text) :
    header.divide (lines ++ last :: rest) = (lines.map header.bodyLine, some (after, rest)) := by
  induction lines with
  | nil =>
      rw [List.nil_append, divide, hLast]
      rfl
  | cons line lines ih =>
      have hRest := ih fun line hLine => hLines line (List.mem_cons_of_mem _ hLine)
      rw [List.cons_append, divide, hLines line List.mem_cons_self, hRest]
      rfl

end HeredocHeader

/-- A body for `cat` behind a delimiter between single quotes, and the line that closes it. -/
structure QuotedHeredoc where
  delimiter : Text
  lines : List Text
  letters : ∀ c ∈ delimiter, Text.isWordChar c = true
  oneLine : ∀ line ∈ lines, chr '\n' ∉ line
  stays : ∀ line ∈ lines, ¬ Closes delimiter line

namespace QuotedHeredoc

def headerLine (d : QuotedHeredoc) : Text := "cat <<'" ++ d.delimiter ++ "'"

def content (d : QuotedHeredoc) : Text := Text.joinLines d.lines

def text (d : QuotedHeredoc) : Text := Text.joinLines (d.headerLine :: (d.lines ++ [d.delimiter]))

/-- What the line that announces the body is read as. -/
def header (d : QuotedHeredoc) : HeredocHeader := ⟨"cat", d.delimiter, false, []⟩

def toHeredoc (d : QuotedHeredoc) : Heredoc := ⟨[.plain "cat"], d.content, none, [], [], [], true⟩

theorem headerLine_chars (d : QuotedHeredoc) :
    d.headerLine = chr 'c' :: chr 'a' :: chr 't' :: chr ' ' :: chr '<' :: chr '<' :: chr '\'' :: (d.delimiter ++ [chr '\'']) := rfl

theorem quote_delimiter (d : QuotedHeredoc) :
    QuoteStyle.single.quote d.delimiter = chr '\'' :: (d.delimiter ++ [chr '\'']) := by
  have hQuote : chr '\'' ∉ d.delimiter := Text.not_mem_of_isWordChar d.letters (by decide)
  have hEscape : d.delimiter.flatMap QuoteStyle.single.escape = d.delimiter.flatMap fun c => [c] := by
    apply List.flatMap_congr
    intro c hc
    rw [QuoteStyle.escape, if_neg]
    rintro rfl
    exact hQuote hc
  rw [QuoteStyle.quote, hEscape, List.flatMap_singleton']
  rfl

theorem text_eq (d : QuotedHeredoc) :
    d.text = d.headerLine ++ chr '\n' :: Text.joinLines (d.lines ++ [d.delimiter]) := by
  have hFront : [d.headerLine] ≠ [] := by simp
  have hBack : d.lines ++ [d.delimiter] ≠ [] := by simp
  exact Text.joinLines_append hFront hBack

/-- Before a delimiter the words `cat` and `<<` are read. -/
theorem read_cat {rest : Text} {later : List Lexeme}
    (h : Lexeme.readFrom .between 6 rest = .ok later) : Lexeme.read ("cat <<" ++ rest) =
      .ok (.word (.plain "cat") 0 false :: .operator (.redirect .heredoc) 4 :: later) := by
  change Lexeme.readFrom .between 0 (chr 'c' :: chr 'a' :: chr 't' :: chr ' ' :: chr '<' :: chr '<' :: rest) = _
  rw [Lexeme.readFrom_of_step (show Lexeme.step .between 0 (chr 'c') _ = ([], .inWord ⟨0, [chr 'c'], false⟩) from rfl),
    Lexeme.readFrom_of_step (show Lexeme.step _ _ (chr 'a') _ = ([], .inWord ⟨0, [chr 'a', chr 'c'], false⟩) from rfl),
    Lexeme.readFrom_of_step (show Lexeme.step _ _ (chr 't') _ = ([], .inWord ⟨0, [chr 't', chr 'a', chr 'c'], false⟩) from rfl)]
  have hOperator : Lexeme.readFrom .between 4 (chr '<' :: chr '<' :: rest) =
      .ok (.operator (.redirect .heredoc) 4 :: later) :=
    Lexeme.readFrom_cons_eq_ok.mpr ⟨later, (Lexeme.readFrom_of_step rfl).trans h, rfl⟩
  exact Lexeme.readFrom_cons_eq_ok.mpr ⟨_, hOperator, rfl⟩

/-- The header is read as the command, the operator and the delimiter, which is quoted. -/
theorem read_headerLine (d : QuotedHeredoc) : Lexeme.read d.headerLine =
    .ok [.word (.plain "cat") 0 false, .operator (.redirect .heredoc) 4,
      .word (Word.quoted d.delimiter) 6 true] := by
  have hDelimiter := Lexeme.readFrom_quote_end .single d.delimiter 6
  rw [quote_delimiter] at hDelimiter
  exact read_cat hDelimiter

theorem breakOn?_delimiter (d : QuotedHeredoc) :
    Text.breakOn? (chr '\'') (d.delimiter ++ [chr '\'']) = some (d.delimiter, []) := by
  have hQuote : chr '\'' ∉ d.delimiter := Text.not_mem_of_isWordChar d.letters (by decide)
  exact Text.breakOn?_append hQuote []

/-- The header is found at the place behind the three letters of the command and its blank. -/
theorem at?_headerLine (d : QuotedHeredoc) : HeredocHeader.at? d.headerLine 0 4 = some d.header := by
  have hDelimiter : HeredocHeader.delimiter? (chr '\'' :: (d.delimiter ++ [chr '\''])) = some (d.delimiter, []) := by
    rw [HeredocHeader.delimiter?, if_pos (by decide), breakOn?_delimiter]
  have hAfter : HeredocHeader.afterOperator? (chr '\'' :: (d.delimiter ++ [chr '\''])) =
      some (false, d.delimiter, []) := by
    change (HeredocHeader.delimiter? (chr '\'' :: (d.delimiter ++ [chr '\'']))).map _ = _
    rw [hDelimiter]
    rfl
  rw [headerLine_chars]
  change (HeredocHeader.afterOperator? (chr '\'' :: (d.delimiter ++ [chr '\'']))).map _ = _
  rw [hAfter]
  rfl

theorem closing?_of_mem (d : QuotedHeredoc) {line : Text} (h : line ∈ d.lines) :
    d.header.closing? line = none :=
  HeredocHeader.closing?_eq_none rfl (d.stays line h)

theorem closing?_delimiter (d : QuotedHeredoc) : d.header.closing? d.delimiter = some [] := by
  have hStrip : Text.stripEnd (d.header.bodyLine d.delimiter) = d.header.delimiter :=
    Text.stripEnd_of_isWordChar d.letters
  rw [HeredocHeader.closing?, hStrip, if_pos (beq_self_eq_true _)]

/-- The lines of the block are divided at its delimiter, with nothing behind it. -/
theorem divide_lines (d : QuotedHeredoc) :
    d.header.divide (d.lines ++ [d.delimiter]) = (d.lines, some ([], [])) := by
  rw [HeredocHeader.divide_append (fun line => d.closing?_of_mem) d.closing?_delimiter]
  have hSame : d.header.bodyLine = id := by
    funext line
    rfl
  rw [hSame, List.map_id]

/-- The lines of the block are its header, its body and its delimiter, since none of them holds a
line end. -/
theorem splitOn_text (d : QuotedHeredoc) :
    d.text.splitOn (chr '\n') = d.headerLine :: (d.lines ++ [d.delimiter]) := by
  have hDelimiter : chr '\n' ∉ d.delimiter := Text.not_mem_of_isWordChar d.letters (by decide)
  apply Text.splitOn_joinLines
  intro line hLine
  rcases List.mem_cons.mp hLine with rfl | hLine
  · rw [headerLine_chars]
    simpa using hDelimiter
  · rcases List.mem_append.mp hLine with hLine | hLine
    · exact d.oneLine line hLine
    · rwa [List.mem_singleton.mp hLine]

/-- The first line has the header, and nothing stands in front of it. -/
theorem findHeader?_lines (d : QuotedHeredoc) (rest : List Text) :
    Heredoc.findHeader? [] [] (d.headerLine :: rest) = some ([], d.header, rest) := by
  have hCandidate : Text.joinLines ([] ++ [d.headerLine]) = d.headerLine := rfl
  have hLocate : HeredocHeader.locateIn 0 [.word (.plain "cat") 0 false,
      .operator (.redirect .heredoc) 4, .word (Word.quoted d.delimiter) 6 true] = some (0, 4) := rfl
  simp only [Heredoc.findHeader?, hCandidate, read_headerLine, hLocate, at?_headerLine]
  rfl

/-- Every body is read as it stands. -/
theorem parse_text (d : QuotedHeredoc) : Heredoc.parse d.text = .ok (some d.toHeredoc) := by
  rw [Heredoc.parse, splitOn_text, findHeader?_lines]
  simp only [divide_lines]
  rfl

/-- What closes the body holds no part of a substitution. -/
theorem inert_delimiter (d : QuotedHeredoc) : Substitution.Inert d.delimiter where
  dollar := Text.not_mem_of_isWordChar d.letters (by decide)
  close := Text.not_mem_of_isWordChar d.letters (by decide)
  head := by
    intro hHead
    exact Text.not_mem_of_isWordChar d.letters (by decide) (List.mem_of_mem_head? hHead)

/-- The header holds no span: what stands in it are the letters of the command and a quoted
delimiter. -/
theorem spansFrom_headerLine (d : QuotedHeredoc) (rest : Text) :
    Substitution.spansFrom 0 false false 0 (d.headerLine ++ chr '\n' :: rest) =
      Substitution.spansFrom 0 false false (d.headerLine.length + 1) rest := by
  have hQuote : chr '\'' ∉ d.delimiter := Text.not_mem_of_isWordChar d.letters (by decide)
  have hLength : d.headerLine.length = d.delimiter.length + 8 := by simp [headerLine_chars]
  have hOpen : Substitution.spansFrom 0 false false 0 (d.headerLine ++ chr '\n' :: rest) =
      Substitution.spansFrom 0 true false 7 (d.delimiter ++ chr '\'' :: chr '\n' :: rest) := by
    rw [headerLine_chars, List.cons_append]
    simp [Substitution.spansFrom, Substitution.opens]
  have hClose (position : Nat) :
      Substitution.spansFrom 0 true false position (chr '\'' :: chr '\n' :: rest) =
        Substitution.spansFrom 0 false false (position + 2) rest := by
    simp [Substitution.spansFrom, Substitution.opens]
  rw [hOpen, Substitution.spansFrom_single hQuote, hClose, hLength]
  congr 1
  omega

/-- The closing line holds no span either, so the spans of the lines are those of the content. -/
theorem spansFrom_lines (d : QuotedHeredoc) (position : Nat) :
    Substitution.spansFrom 0 false false position (Text.joinLines (d.lines ++ [d.delimiter])) =
      Substitution.spansFrom 0 false false position d.content := by
  have hDelimiter := d.inert_delimiter
  by_cases hLines : d.lines = []
  · rw [content, hLines]
    exact Substitution.spansFrom_of_not_mem hDelimiter.dollar ..
  · have hEnd : Substitution.Inert (chr '\n' :: d.delimiter) :=
      ⟨by simpa using hDelimiter.dollar, by simpa using hDelimiter.close, by simp⟩
    rw [Text.joinLines_append hLines (by simp)]
    exact Substitution.spansFrom_append hEnd ..

/-- The substitutions of all lines are those of the body, read as a text of its own. The quotes
around the delimiter hide none of them. -/
theorem spans_text (d : QuotedHeredoc) :
    (Substitution.spans d.text).1 =
      (Substitution.spans d.content).1.map (·.moved (d.headerLine.length + 1)) := by
  have hMoved := Substitution.spansFrom_add 0 false false 0 (d.headerLine.length + 1) d.content
  rw [Nat.zero_add] at hMoved
  rw [Substitution.spans, text_eq, spansFrom_headerLine, spansFrom_lines, hMoved]
  rfl

end QuotedHeredoc

end TreeShell
