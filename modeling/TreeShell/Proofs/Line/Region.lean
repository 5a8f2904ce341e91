import TreeShell.Proofs.Fault
import TreeShell.Proofs.Line.Quoting

/-! Where the characters of a line stand: outside, after a backslash, between quotes, or in
a command. This is less than the mode of the reader, since it says nothing of the words at
hand, but the separators of a line depend on nothing else. -/
namespace TreeShell

/-- An operator is read with its first character at hand: the rest of its spelling is still to come.
-/
theorem Operator.text_of_read? {c : CodePoint} {rest : Text} {op : Operator}
    (h : read? (c :: rest) = some op) : ∃ tail after, op.text = c :: tail ∧ rest = tail ++ after := by
  have hPart := @List.find?_some _ (fun op : Operator => op.text.isPrefixOf (c :: rest)) _ _ h
  obtain ⟨after, hAfter⟩ := List.isPrefixOf_iff_prefix.mp hPart
  cases hText : op.text with
  | nil =>
      cases op with
      | redirect how => cases how <;> cases hText
      | _ => cases hText
  | cons first tail =>
      rw [hText, List.cons_append, List.cons.injEq] at hAfter
      exact ⟨tail, after, by rw [hAfter.1], hAfter.2.symm⟩

namespace Lexeme

/-- What a character is inside of. -/
inductive Region where
  | outside
  | escaped
  | single
  | double
  | escapedInDouble
  | command (quoted : Bool) (depth : Nat)
  deriving DecidableEq

/-- The region that a mode stands for. -/
def Mode.region : Mode → Region
  | .between | .inWord _ | .inOperator _ => .outside
  | .escaped _ => .escaped
  | .inSingle .. => .single
  | .inDouble .. => .double
  | .escapedInDouble .. => .escapedInDouble
  | .inCommand _ opened depth => .command opened.isSome depth

def Region.advance (region : Region) (c : CodePoint) (rest : Text) : Region :=
  match region with
  | .outside =>
    if c == '\\' then .escaped
    else if c == '\'' then .single
    else if c == '"' then .double
    else if c == '$' && rest.head? == some (chr '(') then .command false 0
    else .outside
  | .escaped => .outside
  | .single => if c == '\'' then .outside else .single
  | .double =>
    if c == '"' then .outside
    else if c == '\\' && rest.head?.any escapable then .escapedInDouble
    else if c == '$' && rest.head? == some (chr '(') then .command true 0
    else .double
  | .escapedInDouble => .double
  | .command quoted depth =>
    let depth := if c == '(' then depth + 1 else if c == ')' then depth - 1 else depth
    if depth = 0 then (if quoted then .double else .outside) else .command quoted depth

/-- A character that separates commands where it stands outside. -/
def isBreak (c : CodePoint) : Bool := c == ';' || c == '\n'

/-- Whether a text has a separator, when it begins in a region. -/
def Region.separates (region : Region) : Text → Bool
  | [] => false
  | c :: rest => (region == .outside && isBreak c) || (region.advance c rest).separates rest

/-- No separator is among the lexemes. -/
def NoSequence (lexemes : List Lexeme) : Prop :=
  ∀ position, .operator .sequence position ∉ lexemes

/-- The characters that have a say in where the next ones stand. -/
def marks : Text := [chr '\\', chr '\'', chr '"', chr '$', chr '(', chr '`']

/-- The characters that an operator can have behind its first one. -/
def operatorTails : Text := [chr '>', chr '&', chr '1', chr '|', chr '<']

/-- What is left of an operator stands at the beginning of the text. -/
def Mode.Settled (mode : Mode) (t : Text) : Prop :=
  match mode with
  | .inOperator left => 0 < left ∧ ∀ c ∈ t.take left, c ∈ operatorTails
  | _ => True

theorem head_of_text {op : Operator} {c : CodePoint} {tail : Text} (h : op.text = c :: tail) :
    c ∉ marks ∧ (isBreak c = false ↔ op ≠ .sequence) := by
  cases op with
  | redirect how => cases how <;> cases h <;> decide
  | _ => cases h; decide

/-- The characters that may stand behind the first one of an operator. -/
theorem mem_operatorTails {op : Operator} {c : CodePoint} (h : c ∈ op.text.tail) : c ∈ operatorTails := by
  cases op with
  | redirect how => cases how <;> simp_all [Operator.text, Redirector.text, operatorTails]
  | mergeErrors =>
      simp only [Operator.text, List.tail_cons, List.mem_cons, List.not_mem_nil, or_false] at h
      rcases h with rfl | rfl | rfl <;> decide
  | _ => simp_all [Operator.text, operatorTails]

/-- One step of the reader as the regions see it: where it leads, and whether a separator is
read. -/
structure Agrees (region : Region) (c : CodePoint) (rest : Text) (result : List Lexeme × Mode) : Prop where
  leads : result.2.region = region.advance c rest
  settled : result.2.Settled rest
  separates : NoSequence result.1 ↔ (region == .outside && isBreak c) = false

theorem noSequence_nil : NoSequence [] := nofun

theorem noSequence_cons_word {w : Word} {position : Nat} {quoted : Bool} {lexemes : List Lexeme} :
    NoSequence (.word w position quoted :: lexemes) ↔ NoSequence lexemes := by
  simp [NoSequence]

theorem noSequence_operator {op : Operator} {position : Nat} :
    NoSequence [.operator op position] ↔ op ≠ .sequence := by
  constructor
  · rintro h rfl
    exact h position (List.mem_singleton.mpr rfl)
  · intro h place hMem
    cases List.mem_singleton.mp hMem
    exact h rfl

theorem noSequence_append {front back : List Lexeme} :
    NoSequence (front ++ back) ↔ NoSequence front ∧ NoSequence back := by
  simp only [NoSequence, List.mem_append, not_or, forall_and]

/-- A step that reads nothing agrees where no separator stands. -/
theorem agrees_nil {region : Region} {c : CodePoint} {rest : Text} {next : Mode}
    (hBreak : (region == .outside && isBreak c) = false)
    (h : next.region = region.advance c rest ∧ next.Settled rest) : Agrees region c rest ([], next) :=
  ⟨h.1, h.2, iff_of_true noSequence_nil hBreak⟩

/-- A character that does not break a word leads further into it, or into the region that it opens.
-/
theorem agrees_stepWord (w : Draft) (position : Nat) {c : CodePoint} (rest : Text)
    (hBreak : isBreak c = false) : Agrees .outside c rest ([], stepWord w position c rest) := by
  refine agrees_nil hBreak ?_
  rw [stepWord, Region.advance]
  repeat' split
  all_goals exact ⟨rfl, trivial⟩

theorem advance_outside {c : CodePoint} (h : c ∉ marks) (rest : Text) :
    Region.outside.advance c rest = .outside := by
  simp_all [Region.advance, marks]

theorem plain_of_mem_operatorTails {c : CodePoint} (h : c ∈ operatorTails) :
    c ∉ marks ∧ isBreak c = false := by
  have hAll : operatorTails.all (fun c => c ∉ marks ∧ isBreak c = false) = true := by decide
  simpa using List.all_eq_true.mp hAll c h

theorem not_mem_marks_of_isBlank {c : CodePoint} (h : Text.isBlank c = true) : c ∉ marks := by
  have hAll : marks.all (fun c => !Text.isBlank c) = true := by decide
  intro hMem
  simpa [h] using List.all_eq_true.mp hAll c hMem

/-- Where no word has begun, a character leads into the region that it opens, if it opens one. -/
theorem agrees_stepBetween (position : Nat) (c : CodePoint) (rest : Text) :
    Agrees .outside c rest (stepBetween position c rest) := by
  rw [stepBetween]
  split
  · rename_i hSeparator
    have hBlank : c = ' ' ∨ c = '\t' ∨ c = '\r' := by
      simpa [isSeparator, or_assoc] using hSeparator
    rcases hBlank with rfl | rfl | rfl
    all_goals exact ⟨rfl, trivial, by simp [noSequence_nil, isBreak]⟩
  · split
    · rename_i hBreak
      rw [eq_of_beq hBreak]
      exact ⟨rfl, trivial, by simp [noSequence_operator, isBreak]⟩
    · rename_i hBreak
      cases hRead : Operator.read? (c :: rest) with
      | none =>
          apply agrees_stepWord
          have hSemicolon : c ≠ ';' := by
            rintro rfl
            cases hRead
          simp_all [isBreak]
      | some op =>
          obtain ⟨tail, after, hText, rfl⟩ := Operator.text_of_read? hRead
          have hTails : ∀ d ∈ tail, d ∈ operatorTails := by
            intro d hd
            exact mem_operatorTails (by rwa [hText])
          have hHead := head_of_text hText
          refine ⟨?_, ?_, ?_⟩
          · rw [advance_outside hHead.1]
            dsimp only
            split <;> rfl
          · dsimp only
            rw [hText, List.length_cons, Nat.add_sub_cancel]
            split
            · trivial
            · exact ⟨by omega, by simpa using hTails⟩
          · simp [noSequence_operator, hHead.2]

theorem readFrom_cons_eq_ok {mode : Mode} {position : Nat} {c : CodePoint} {rest : Text}
    {lexemes : List Lexeme} : readFrom mode position (c :: rest) = .ok lexemes ↔
      ∃ later, readFrom (step mode position c rest).2 (position + 1) rest = .ok later ∧
        lexemes = (step mode position c rest).1 ++ later :=
  map_eq_ok

theorem OnlyWords.not_mem_operator {lexemes : List Lexeme} (h : OnlyWords lexemes) (op : Operator)
    (position : Nat) : .operator op position ∉ lexemes := by
  intro hMem
  obtain ⟨w, place, quoted, hWord⟩ := h _ hMem
  cases hWord

theorem OnlyWords.noSequence {lexemes : List Lexeme} (h : OnlyWords lexemes) :
    NoSequence lexemes :=
  h.not_mem_operator .sequence

theorem onlyWords_nil : OnlyWords [] := nofun

theorem onlyWords_word (w : Draft) : OnlyWords [w.finish] := by
  intro lexeme hMem
  exact ⟨_, _, _, List.mem_singleton.mp hMem⟩

theorem OnlyWords.append {front back : List Lexeme} (hFront : OnlyWords front)
    (hBack : OnlyWords back) : OnlyWords (front ++ back) := by
  intro lexeme hMem
  exact (List.mem_append.mp hMem).elim (hFront lexeme) (hBack lexeme)

/-- The end of the line can complete a word, but no operator. -/
theorem onlyWords_finish {mode : Mode} {lexemes : List Lexeme} (h : finish mode = .ok lexemes) :
    OnlyWords lexemes := by
  cases mode with
  | between => cases h; exact onlyWords_nil
  | inOperator left => cases h; exact onlyWords_nil
  | inWord w => cases h; exact onlyWords_word w
  | escaped w => cases h; exact onlyWords_word w
  | inSingle w opened => cases h
  | inDouble w opened => cases h
  | escapedInDouble w opened => cases h
  | inCommand w opened depth =>
      cases opened with
      | none => cases h; exact onlyWords_word w
      | some opened => cases h

/-- Every step of the lexer goes to the region that the character leads to. -/
theorem agrees_step {mode : Mode} (position : Nat) {c : CodePoint} {rest : Text}
    (h : mode.Settled (c :: rest)) : Agrees mode.region c rest (step mode position c rest) := by
  cases mode with
  | between => exact agrees_stepBetween position c rest
  | inWord w =>
      rw [step]
      split
      · have hBetween := agrees_stepBetween position c rest
        exact ⟨hBetween.leads, hBetween.settled, noSequence_cons_word.trans hBetween.separates⟩
      · rename_i hEnds
        apply agrees_stepWord
        have hSemicolon : c ≠ ';' := by
          rintro rfl
          exact hEnds rfl
        simp_all [isBreak, endsWord]
  | inOperator left =>
      have hTail : c ∈ operatorTails := h.2 c (by
        rw [List.take_cons h.1]
        exact List.mem_cons_self)
      have hOther := plain_of_mem_operatorTails hTail
      refine agrees_nil hOther.2 ?_
      rw [Mode.region, advance_outside hOther.1]
      split
      · exact ⟨rfl, trivial⟩
      · refine ⟨rfl, by omega, fun d hd => h.2 d ?_⟩
        rw [List.take_cons h.1]
        exact List.mem_cons_of_mem _ hd
  | escaped w => exact agrees_nil rfl ⟨rfl, trivial⟩
  | inSingle w opened =>
      apply agrees_nil rfl
      rw [Mode.region, Region.advance]
      split <;> exact ⟨rfl, trivial⟩
  | inDouble w opened =>
      apply agrees_nil rfl
      rw [Mode.region, Region.advance]
      repeat' split
      all_goals exact ⟨rfl, trivial⟩
  | escapedInDouble w opened => exact agrees_nil rfl ⟨rfl, trivial⟩
  | inCommand w opened depth =>
      apply agrees_nil rfl
      rw [Mode.region, Region.advance]
      generalize (if c == '(' then depth + 1 else if c == ')' then depth - 1 else depth) = depth
      split
      · cases opened <;> exact ⟨rfl, trivial⟩
      · exact ⟨rfl, trivial⟩

/-- The reader finds a separator exactly when the regions say so. -/
theorem noSequence_iff {mode : Mode} {position : Nat} {t : Text} {found : List Lexeme}
    (hSettled : mode.Settled t) (h : readFrom mode position t = .ok found) :
    NoSequence found ↔ mode.region.separates t = false := by
  induction t generalizing mode position found with
  | nil => simpa [Region.separates] using (onlyWords_finish h).noSequence
  | cons c rest ih =>
      obtain ⟨later, hLater, rfl⟩ := readFrom_cons_eq_ok.mp h
      have hStep := agrees_step position hSettled
      rw [noSequence_append, hStep.separates, ih hStep.settled hLater, hStep.leads, Region.separates,
        Bool.or_eq_false_iff]

/-- Blanks behind the line cannot complete an operator, so every character leads where it led
without them. -/
theorem advance_append {region : Region} {c : CodePoint} {rest back : Text}
    (hBlank : ∀ d ∈ back, Text.isBlank d = true) :
    region.advance c (rest ++ back) = region.advance c rest := by
  have hHead : ((rest ++ back).head? == some (chr '(')) = (rest.head? == some (chr '(')) ∧
      (rest ++ back).head?.any escapable = rest.head?.any escapable := by
    cases rest with
    | cons d rest => exact ⟨rfl, rfl⟩
    | nil =>
        cases back with
        | nil => exact ⟨rfl, rfl⟩
        | cons d back =>
            have hOther := not_mem_marks_of_isBlank (hBlank d List.mem_cons_self)
            simp_all [escapable, marks]
  cases region <;> simp only [Region.advance, hHead.1, hHead.2]

/-- Blanks behind a text do not hide its separators. -/
theorem separates_append {region : Region} {t back : Text}
    (hBlank : ∀ c ∈ back, Text.isBlank c = true) (h : region.separates t = true) :
    region.separates (t ++ back) = true := by
  induction t generalizing region with
  | nil => cases h
  | cons c rest ih =>
      rw [Region.separates, Bool.or_eq_true] at h
      rw [List.cons_append, Region.separates, Bool.or_eq_true, advance_append hBlank]
      exact h.imp_right ih

/-- Neither do blanks in front of it. -/
theorem separates_blanks_append {front t : Text} (hBlank : ∀ c ∈ front, Text.isBlank c = true)
    (h : Region.outside.separates t = true) : Region.outside.separates (front ++ t) = true := by
  induction front with
  | nil => exact h
  | cons c front ih =>
      have hPlain := not_mem_marks_of_isBlank (hBlank c List.mem_cons_self)
      rw [List.cons_append, Region.separates, advance_outside hPlain, Bool.or_eq_true]
      exact Or.inr (ih fun d hd => hBlank d (List.mem_cons_of_mem _ hd))

/-- Stripping blanks cannot make a sequence of what is none. -/
theorem noSequence_strip {t : Text} {position place : Nat} {found inner : List Lexeme}
    (hOuter : readFrom .between position t = .ok found) (hNo : NoSequence found)
    (hInner : readFrom .between place (Text.strip t) = .ok inner) : NoSequence inner := by
  obtain ⟨front, back, hText, hFront, hBack⟩ := Text.exists_strip t
  rw [noSequence_iff (by exact trivial) hOuter, Bool.eq_false_iff] at hNo
  rw [noSequence_iff (by exact trivial) hInner, Bool.eq_false_iff]
  intro hSeparates
  apply hNo
  rw [hText]
  exact separates_blanks_append hFront (separates_append hBack hSeparates)

end Lexeme

end TreeShell
