import TreeShell.Proofs.Line.QuotedHeredoc

/-! A body that is collected from a list of lines, and one that is read in a block of text.
The first takes the header from the first line alone, with everything before `<<` for the
command. The second searches the block for a header, reads lines with open quotes together,
and cuts the command off behind the last separator. If the first line is a header, both see
the same delimiter, so that they divide the lines after it in the same way. -/
namespace TreeShell

namespace Text

/-- If nothing is left between the blanks at the ends, there were only blanks. -/
theorem allBlank_of_strip_eq_nil {t : Text} (h : strip t = []) : allBlank t = true := by
  obtain ⟨front, back, hText, hFront, hBack⟩ := exists_strip t
  rw [hText, h, List.nil_append, allBlank, List.all_append, Bool.and_eq_true]
  exact ⟨List.all_eq_true.mpr hFront, List.all_eq_true.mpr hBack⟩

end Text

namespace Lexeme

def separator? : Lexeme → Option Nat
  | .operator .sequence position => some position
  | _ => none

/-- An operator stands in the line where its position says. -/
theorem stands_of_operator {t : Text} {mode : Mode} {position place : Nat} {lexemes : List Lexeme}
    {op : Operator} (hSettled : mode.Settled t) (hRead : readFrom mode position t = .ok lexemes)
    (hMem : .operator op place ∈ lexemes) : ∃ front c rest, t = front ++ c :: rest ∧
      place = position + front.length ∧ (op = .sequence → isBreak c = true) ∧
      (op ≠ .sequence → Operator.read? (c :: rest) = some op) := by
  induction t generalizing mode position lexemes with
  | nil => exact absurd hMem ((onlyWords_finish hRead).not_mem_operator _ _)
  | cons c rest ih =>
      obtain ⟨later, hLater, rfl⟩ := readFrom_cons_eq_ok.mp hRead
      have hStep := agrees_step position hSettled
      -- The operator begins at this character, or it is found in what follows.
      rcases List.mem_append.mp hMem with hHere | hThere
      · refine ⟨[], c, rest, rfl, ?_⟩
        rcases step_cases mode position c rest with
          hWords | ⟨words, found, hFound, hWords, -, -, hOp⟩
        · exact absurd hHere (hWords.not_mem_operator _ _)
        · have hLast : Lexeme.operator op place = .operator found position := by
            rw [hFound, List.mem_append, List.mem_singleton] at hHere
            exact hHere.resolve_left (hWords.not_mem_operator _ _)
          cases hLast
          refine ⟨rfl, ?_, hOp⟩
          rintro rfl
          by_contra hBreak
          have hNo := hStep.separates.mpr (by rw [eq_false_of_ne_true hBreak, Bool.and_false])
          exact hNo _ hHere
      · obtain ⟨front, d, after, rfl, hPlace, hBreak⟩ := ih hStep.settled hLater hThere
        exact ⟨c :: front, d, after, rfl, by rw [hPlace, List.length_cons]; omega, hBreak⟩

/-- Every operator that is read stands in the line at the place that was written down for it. -/
theorem stands_of_read {line : Text} {place : Nat} {lexemes : List Lexeme} {op : Operator}
    (hRead : read line = .ok lexemes) (hMem : .operator op place ∈ lexemes) :
    ∃ front c rest, line = front ++ c :: rest ∧ place = front.length ∧
      (op = .sequence → isBreak c = true) ∧ (op ≠ .sequence → Operator.read? (c :: rest) = some op) := by
  have hSettled : Mode.between.Settled line := trivial
  have hStands := stands_of_operator hSettled hRead hMem
  simpa only [Nat.zero_add] using hStands

end Lexeme

namespace HeredocHeader

/-- The first `<<` of a line stands at `position`, outside of quotes. The last separator
before it, if there is one, stands at `cut`. -/
def OpensAt (line : Text) (cut : Option Nat) (position : Nat) : Prop :=
  ∃ before after, Lexeme.read line =
      .ok (before ++ .operator (.redirect .heredoc) position :: after) ∧
    (∀ place, .operator (.redirect .heredoc) place ∉ before) ∧
    (before.filterMap Lexeme.separator?).getLast? = cut

/-- Where a command begins that follows the separator at `cut`. -/
def begins (cut : Option Nat) : Nat := cut.elim 0 (· + 1)

/-- The separator of a line without an end of line is a semicolon. -/
theorem OpensAt.separator {line : Text} {cut position : Nat} (hLine : chr '\n' ∉ line)
    (h : OpensAt line (some cut) position) : ∃ rest, line = line.take cut ++ chr ';' :: rest := by
  obtain ⟨before, after, hRead, -, hCut⟩ := h
  obtain ⟨lexeme, hLexeme, hPlace⟩ := List.mem_filterMap.mp (List.mem_of_getLast? hCut)
  have hSame : lexeme = .operator .sequence cut := by
    cases lexeme with
    | word w place quoted => cases hPlace
    | operator op place =>
        cases op <;> cases hPlace
        rfl
  have hMem : .operator .sequence cut ∈ before ++ .operator (.redirect .heredoc) position :: after :=
    List.mem_append_left _ (hSame ▸ hLexeme)
  obtain ⟨front, c, rest, rfl, rfl, hBreak, -⟩ := Lexeme.stands_of_read hRead hMem
  have hc : c = ';' := by
    have hOr := hBreak rfl
    rw [Lexeme.isBreak, Bool.or_eq_true, beq_iff_eq, beq_iff_eq] at hOr
    refine hOr.resolve_right ?_
    rintro rfl
    simp at hLine
  exact ⟨rest, by rw [hc, List.take_left]⟩

/-- What the search for `<<` passes by is a word or an operator other than `<<`. -/
theorem locateIn_append {before : List Lexeme}
    (hBefore : ∀ place, .operator (.redirect .heredoc) place ∉ before) (after : List Lexeme)
    (start position : Nat) : locateIn start (before ++ .operator (.redirect .heredoc) position :: after) =
      some (((before.filterMap Lexeme.separator?).getLast?).elim start (· + 1), position) := by
  induction before generalizing start with
  | nil => rfl
  | cons lexeme before ih =>
      have hRest := ih fun place hMem => hBefore place (List.mem_cons_of_mem _ hMem)
      have hOther (hNone : lexeme.separator? = none) (hPass : locateIn start (lexeme :: (before ++
          .operator (.redirect .heredoc) position :: after)) =
          locateIn start (before ++ .operator (.redirect .heredoc) position :: after)) :
          locateIn start (lexeme :: (before ++ .operator (.redirect .heredoc) position :: after)) =
            some ((((lexeme :: before).filterMap Lexeme.separator?).getLast?).elim start (· + 1),
              position) := by
        rw [hPass, hRest, List.filterMap_cons_none hNone]
      cases lexeme with
      | word w place quoted => exact hOther rfl rfl
      | operator op place =>
          cases op with
          | sequence =>
              have hSome : (Lexeme.operator .sequence place).separator? = some place := rfl
              rw [List.filterMap_cons_some hSome, List.getLast?_cons]
              refine (hRest (place + 1)).trans ?_
              cases (before.filterMap Lexeme.separator?).getLast? <;> rfl
          | redirect how =>
              cases how with
              | heredoc => exact absurd List.mem_cons_self (hBefore place)
              | _ => exact hOther rfl rfl
          | _ => exact hOther rfl rfl

theorem ofLine?_of_opensAt {line : Text} {cut : Option Nat} {position : Nat}
    (h : OpensAt line cut position) : ofLine? line = at? line 0 position := by
  obtain ⟨before, after, hRead, hBefore, -⟩ := h
  simp only [ofLine?, hRead, locateIn_append hBefore]
  rfl

/-- The command is the only part of a header that depends on where the command begins. -/
theorem at?_of_at? {t : Text} {start first position : Nat} {header : HeredocHeader}
    (h : at? t start position = some header)
    (hCommand : Text.allBlank ((t.take position).drop first) = false) :
    at? t first position =
      some { header with command := Text.strip ((t.take position).drop first) } := by
  have hSome : (Text.strip ((t.take position).drop first)).isEmpty = false := by
    rw [List.isEmpty_eq_false_iff]
    intro hNone
    rw [Text.allBlank_of_strip_eq_nil hNone] at hCommand
    cases hCommand
  rw [at?] at h
  split at h
  · cases h
  · rename_i hOr
    obtain ⟨⟨stripTabs, delimiter, rest⟩, hAfter, rfl⟩ := Option.map_eq_some_iff.mp h
    have hNot : ¬ ((t.drop (position + 2)).head? = some (chr '<') ∨
        (Text.strip ((t.take position).drop first)).isEmpty = true) := by
      rintro (hHere | hNone)
      · exact hOr (Or.inl hHere)
      · rw [hSome] at hNone
        cases hNone
    rw [at?, if_neg hNot, hAfter]
    rfl

/-- Without a closing line everything belongs to the body. -/
theorem divide_of_none {header : HeredocHeader} {lines : List Text}
    (h : ∀ line ∈ lines, header.closing? line = none) :
    header.divide lines = (lines.map header.bodyLine, none) := by
  induction lines with
  | nil => rfl
  | cons line lines ih =>
      have hRest := ih fun other hOther => h other (List.mem_cons_of_mem _ hOther)
      rw [divide, h line List.mem_cons_self, hRest]
      rfl

/-- The command has no part in the division of the lines. -/
theorem divide_command (header : HeredocHeader) (command : Text) (lines : List Text) :
    ({ header with command := command } : HeredocHeader).divide lines = header.divide lines := by
  induction lines with
  | nil => rfl
  | cons line lines ih =>
      have hClosing : ({ header with command := command } : HeredocHeader).closing? line =
          header.closing? line := rfl
      rw [divide, divide, hClosing, ih]
      rfl

/-- The lines after a header fall into the body, the first line that closes it, and the rest.
Without such a line all of them are the body. -/
inductive Divides (header : HeredocHeader) : (lines body rest : List Text) → Bool → Prop
  | closed {body rest : List Text} {last after : Text}
      (hBody : ∀ line ∈ body, header.closing? line = none) (hLast : header.closing? last = some after) :
      Divides header (body ++ last :: rest) body rest true
  | unclosed {body : List Text} (hBody : ∀ line ∈ body, header.closing? line = none) :
      Divides header body body [] false

/-- Dividing finds the first line that closes, or runs out of lines, and says which of the two it
was. -/
theorem exists_divides (header : HeredocHeader) (lines : List Text) : ∃ body ending,
    header.divide lines = (body.map header.bodyLine, ending) ∧
      header.Divides lines body (ending.getD ([], [])).2 ending.isSome := by
  cases hFirst : lines.find? fun line => (header.closing? line).isSome with
  | none =>
      have hBody (line : Text) (hLine : line ∈ lines) : header.closing? line = none := by
        simpa using List.find?_eq_none.mp hFirst line hLine
      exact ⟨lines, none, divide_of_none hBody, .unclosed hBody⟩
  | some last =>
      obtain ⟨hClosing, body, rest, rfl, hOpen⟩ := List.find?_eq_some_iff_append.mp hFirst
      obtain ⟨after, hLast⟩ := Option.isSome_iff_exists.mp hClosing
      have hBody (line : Text) (hLine : line ∈ body) : header.closing? line = none := by
        simpa using hOpen line hLine
      exact ⟨body, some (after, rest), divide_append hBody hLast rest, .closed hBody hLast⟩

/-- The line that closes a body is the one after its last line. -/
theorem Divides.rest_eq {header : HeredocHeader} {lines body rest : List Text} {closed : Bool}
    (h : header.Divides lines body rest closed) :
    rest = lines.drop (if closed then body.length + 1 else lines.length) := by
  cases h with
  | closed hBody hLast => simp
  | unclosed hBody => simp

end HeredocHeader

/-- The content that is collected after the first of some lines. -/
theorem HeredocContent.ofLines?_cons {line : Text} {header : HeredocHeader} (lines : List Text)
    (h : HeredocHeader.ofLine? line = some header) :
    ofLines? (line :: lines) 0 = some {
      command := header.command
      content := Text.joinLines (header.divide lines).1
      last := ((if (header.divide lines).2.isSome then (header.divide lines).1.length + 1
        else lines.length : Nat) : Int)
      closed := (header.divide lines).2.isSome } := by
  have hStart : (0 : Int) < (line :: lines).length ∧ -(0 : Int) ≤ (line :: lines).length := by
    simp only [List.length_cons]
    omega
  rw [ofLines?, if_pos hStart]
  cases hEnding : (header.divide lines).2 <;> simp [h, hEnding, Int.add_comm]

namespace Heredoc

/-- A header on the first line of a block. The command is cut off behind the last separator. -/
theorem findHeader?_of_opensAt {line : Text} {cut : Option Nat} {position : Nat}
    {header : HeredocHeader} (hPlace : HeredocHeader.OpensAt line cut position)
    (hAt : HeredocHeader.at? line (HeredocHeader.begins cut) position = some header)
    (lines : List Text) :
    findHeader? [] [] (line :: lines) = some (cut.elim [] (fun p => [line.take p]), header, lines) := by
  obtain ⟨before, after, hRead, hBefore, hCut⟩ := hPlace
  have hCandidate : Text.joinLines ([] ++ [line]) = line := rfl
  have hLocate := HeredocHeader.locateIn_append hBefore after 0 position
  rw [hCut] at hLocate
  simp only [findHeader?, hCandidate, hRead, hLocate]
  rw [HeredocHeader.begins] at hAt
  rw [hAt]
  cases cut <;> rfl

/-- What is found in a block, apart from the words of the command. -/
theorem fields_of_parse {t : Text} {d : Heredoc} {lead rest : List Text} {header : HeredocHeader}
    (hHeader : findHeader? [] [] (t.splitOn (chr '\n')) = some (lead, header, rest))
    (h : parse t = .ok (some d)) :
    d.content = Text.joinLines (header.divide rest).1 ∧ d.closed = (header.divide rest).2.isSome ∧
      d.lead = Text.joinLines lead ∧
      d.trail = Text.joinLines ((header.divide rest).2.getD ([], [])).2 := by
  simp only [parse, hHeader, bind_eq_ok] at h
  obtain ⟨words, -, ⟨command, redirections⟩, -, hSame⟩ := h
  cases hSame
  exact ⟨rfl, rfl, rfl, rfl⟩

/-- A block whose first line is a header, with a command of its own in front of `<<`, is read
as the lines are: with the same body, up to the same closing line, and with no line lost. The
text before the command is what stands before the semicolon, and the text after the closing
line is made of the lines behind the last one that was collected. -/
theorem ofLines?_of_parse {line : Text} {lines : List Text} {header : HeredocHeader}
    {cut : Option Nat} {position : Nat} {d : Heredoc} (hLines : ∀ t ∈ line :: lines, chr '\n' ∉ t)
    (hHeader : HeredocHeader.ofLine? line = some header)
    (hPlace : HeredocHeader.OpensAt line cut position)
    (hCommand : Text.allBlank ((line.take position).drop (HeredocHeader.begins cut)) = false)
    (hParse : parse (Text.joinLines (line :: lines)) = .ok (some d)) :
    ∃ content, HeredocContent.ofLines? (line :: lines) 0 = some content ∧
      content.content = d.content ∧ content.closed = d.closed ∧
      (cut = none → d.lead = []) ∧
      (∀ place, cut = some place → d.lead = line.take place ∧ ∃ rest, line = d.lead ++ chr ';' :: rest) ∧
      d.trail = Text.joinLines ((line :: lines).drop (content.last + 1).toNat) ∧
      ∃ body rest, header.Divides lines body rest d.closed ∧
        d.content = Text.joinLines (body.map header.bodyLine) ∧ d.trail = Text.joinLines rest ∧
        content.last = (if d.closed then body.length + 1 else lines.length : Nat) := by
  -- Both headers have the same delimiter, so that one division of the lines serves both.
  have hAt : HeredocHeader.at? line 0 position = some header := by
    rw [← HeredocHeader.ofLine?_of_opensAt hPlace, hHeader]
  have hFound := findHeader?_of_opensAt hPlace (HeredocHeader.at?_of_at? hAt hCommand) lines
  rw [← Text.splitOn_joinLines hLines] at hFound
  obtain ⟨hContent, hClosed, hLead, hTrail⟩ := fields_of_parse hFound hParse
  rw [HeredocHeader.divide_command] at hContent hClosed hTrail
  obtain ⟨body, ending, hDivide, hDivides⟩ := header.exists_divides lines
  rw [hDivide] at hContent hClosed hTrail
  rw [← hClosed] at hDivides
  refine ⟨_, HeredocContent.ofLines?_cons lines hHeader, ?_, ?_, ?_, ?_, ?_, body, _, hDivides,
    hContent, hTrail, ?_⟩
  · rw [hDivide, hContent]
  · rw [hDivide, hClosed]
  · rintro rfl
    exact hLead
  · rintro place rfl
    have hBefore : d.lead = line.take place := hLead
    rw [hBefore]
    exact ⟨rfl, hPlace.separator (hLines line List.mem_cons_self)⟩
  · dsimp only
    rw [hTrail, hDivides.rest_eq, hDivide, ← hClosed, List.length_map]
    rfl
  · rw [hDivide, ← hClosed, List.length_map]

/-- A command behind a semicolon: tabs are stripped, and something stands behind the delimiter
on both lines. -/
def stripped : Heredoc :=
  ⟨[.plain "cat"], "x", some "> f | wc", [], "echo a ", "echo b", true⟩

/-- The line that closes a stripped body is the third one, and one line follows it. -/
theorem ofLines?_of_parse_stripped :
    HeredocContent.ofLines? ["echo a ; cat <<-E > f", "\tx", "\tE | wc", "echo b"] 0 =
        some ⟨"echo a ; cat", stripped.content, 2, stripped.closed⟩ ∧
      stripped.lead = "echo a " ∧ stripped.trail = Text.joinLines ["echo b"] := by
  have hPlace : HeredocHeader.OpensAt "echo a ; cat <<-E > f" (some 7) 13 :=
    ⟨[.word (.plain "echo") 0 false, .word (.plain "a") 5 false, .operator .sequence 7,
        .word (.plain "cat") 9 false],
      [.word (.plain "-E") 15 false, .operator (.redirect .output) 18, .word (.plain "f") 20 false],
      rfl, by simp, rfl⟩
  have hHeader : HeredocHeader.ofLine? "echo a ; cat <<-E > f" =
      some ⟨"echo a ; cat", "E", true, "> f"⟩ := rfl
  have hParse : parse (Text.joinLines ["echo a ; cat <<-E > f", "\tx", "\tE | wc", "echo b"]) =
      .ok (some stripped) := rfl
  obtain ⟨content, hContent, -, -, -, hLead, hTrail, -⟩ :=
    ofLines?_of_parse (by decide) hHeader hPlace (by decide) hParse
  have hSame : content = ⟨"echo a ; cat", "x", 2, true⟩ := Option.some.inj (hContent.symm.trans rfl)
  rw [hSame] at hContent hTrail
  exact ⟨hContent, (hLead 7 rfl).1, hTrail⟩

end Heredoc

end TreeShell
