import TreeShell.Proofs.Line.Heredoc
import TreeShell.Proofs.Line.Moved

/-! Texts that follow each other on lines. Where nothing is left open, an end of line is read as a
separator, whatever was read before it, and nothing in front of it depends on what stands behind it. The
text behind it is read as by itself, further to the right: so are its words and operators, and so is
the quote that it may leave open. -/
namespace TreeShell

/-- No operator goes on behind the end of a line. -/
theorem Operator.read?_before_end (c : CodePoint) (front back : Text) :
    read? (c :: (front ++ chr '\n' :: back)) = read? (c :: front) :=
  read?_append fun _ _ hTail => absurd (Lexeme.mem_operatorTails hTail) (by decide)

namespace Lexeme

/-- What a mode asks of the text ahead, so that it is left at the end of the text: an operator has its
other characters there, and a backslash the one that it escapes. A command is never left by this
account. -/
def Mode.Closes (mode : Mode) (t : Text) : Prop :=
  match mode with
  | .inOperator left => 0 < left ∧ left ≤ t.length
  | .escaped _ => t ≠ []
  | .inCommand .. => False
  | _ => True

/-- No command begins in a text where none is written. -/
theorem opens_eq_false {c : CodePoint} {rest : Text} (h : Text.occursIn [chr '$', chr '('] (c :: rest) = false) :
    (c == '$' && rest.head? == some (chr '(')) = false := by
  rw [← Bool.not_eq_true, Bool.and_eq_true, beq_iff_eq, beq_iff_eq]
  rintro ⟨rfl, hParen⟩
  obtain ⟨inner, rfl⟩ := List.head?_eq_some_iff.mp hParen
  simp [Text.occursIn, List.isPrefixOf] at h

section Step

variable {c : CodePoint} {rest : Text} (hCommand : Text.occursIn [chr '$', chr '('] (c :: rest) = false)
  (hLast : (c :: rest).getLast? ≠ some (chr '\\'))
include hCommand hLast

/-- Within a word a backslash has the character that it escapes ahead, and no command is opened. -/
theorem closes_stepWord (w : Draft) (position : Nat) : (stepWord w position c rest).Closes rest := by
  simp only [stepWord, opens_eq_false hCommand, Bool.false_eq_true, if_false]
  split
  · rename_i hBackslash
    rintro rfl
    exact hLast (congrArg some (beq_iff_eq.mp hBackslash))
  · repeat' split
    all_goals trivial

/-- Nothing is opened between words that the text does not complete: an operator is read ahead, so
its other characters are there. -/
theorem closes_stepBetween (position : Nat) : (stepBetween position c rest).2.Closes rest := by
  rw [stepBetween]
  split
  · trivial
  · split
    · trivial
    · split
      · rename_i op hRead
        obtain ⟨tail, after, hText, rfl⟩ := Operator.text_of_read? hRead
        dsimp only
        rw [hText, List.length_cons, Nat.add_sub_cancel]
        split
        · trivial
        · rename_i hMore
          exact ⟨Nat.pos_of_ne_zero hMore, by simp⟩
      · exact closes_stepWord hCommand hLast _ position

/-- One character keeps a mode one that is left at the end of the text. -/
theorem closes_step {mode : Mode} (position : Nat) (hMode : mode.Closes (c :: rest)) :
    (step mode position c rest).2.Closes rest := by
  cases mode with
  | between => exact closes_stepBetween hCommand hLast position
  | inOperator left =>
      obtain ⟨_, hLeft⟩ := hMode
      rw [List.length_cons] at hLeft
      rw [step]
      dsimp only
      split
      · trivial
      · rename_i hMore
        exact ⟨by omega, by omega⟩
  | inWord w =>
      rw [step]
      split
      · exact closes_stepBetween hCommand hLast position
      · exact closes_stepWord hCommand hLast w position
  | escaped w => trivial
  | inSingle w opened =>
      rw [step]
      dsimp only
      split <;> trivial
  | inDouble w opened =>
      simp only [step, opens_eq_false hCommand, Bool.false_eq_true, if_false]
      repeat' split
      all_goals trivial
  | escapedInDouble w opened => trivial
  | inCommand w opened depth => exact hMode.elim

end Step

/-- Where nothing is left open, an end of line completes the word at hand and is a separator. -/
theorem readFrom_end {mode : Mode} {position : Nat} {found : List Lexeme} (hMode : mode.Closes [])
    (hEnd : finish mode = .ok found) (back : Text) :
    readFrom mode position (chr '\n' :: back) =
      (readFrom .between (position + 1) back).map
        (found ++ .operator .sequence position :: ·) := by
  cases mode with
  | between =>
      cases hEnd
      rfl
  | inOperator left => exact absurd hMode.1 (Nat.not_lt_of_le hMode.2)
  | inWord w =>
      cases hEnd
      rfl
  | escaped w => exact absurd rfl hMode
  | inSingle w opened => cases hEnd
  | inDouble w opened => cases hEnd
  | escapedInDouble w opened => cases hEnd
  | inCommand w opened depth => exact hMode.elim

/-- A line is read up to its end as by itself. -/
theorem readFrom_line {mode : Mode} {position : Nat} {line : Text} {found : List Lexeme}
    (hCommand : Text.occursIn [chr '$', chr '('] line = false) (hLast : line.getLast? ≠ some (chr '\\'))
    (hMode : mode.Closes line) (hRead : readFrom mode position line = .ok found) (back : Text) :
    readFrom mode position (line ++ chr '\n' :: back) =
      (readFrom .between (position + line.length + 1) back).map
        (found ++ .operator .sequence (position + line.length) :: ·) := by
  induction line generalizing mode position found with
  | nil => exact readFrom_end hMode hRead back
  | cons c rest ih =>
      obtain ⟨later, hLater, rfl⟩ := readFrom_cons_eq_ok.mp hRead
      have hStep : step mode position c (rest ++ chr '\n' :: back) = step mode position c rest :=
        step_append (fun _ => Operator.read?_before_end c rest back) (by decide) (by decide)
      have hRest : Text.occursIn [chr '$', chr '('] rest = false := (Bool.or_eq_false_iff.mp hCommand).2
      have hEnd : rest.getLast? ≠ some (chr '\\') := by
        intro hBackslash
        cases rest with
        | nil => cases hBackslash
        | cons d rest => exact hLast (by rwa [List.getLast?_cons_cons])
      have hNext := ih hRest hEnd (closes_step hCommand hLast position hMode) hLater
      rw [List.cons_append, readFrom, hStep]
      dsimp only
      rw [hNext, List.length_cons, Nat.add_right_comm position 1, ← Nat.add_assoc position]
      cases readFrom .between (position + rest.length + 1 + 1) back with
      | error fault => rfl
      | ok more => exact congrArg Except.ok (List.append_assoc ..).symm

/-- Reading fails exactly if it fails behind the first step. -/
theorem readFrom_cons_eq_error {mode : Mode} {position : Nat} {c : CodePoint} {rest : Text} {fault : Fault} :
    readFrom mode position (c :: rest) = .error fault ↔
      readFrom (step mode position c rest).2 (position + 1) rest = .error fault := by
  rw [readFrom]
  dsimp only
  cases readFrom (step mode position c rest).2 (position + 1) rest with
  | error other => exact Iff.rfl
  | ok later => simp [Except.map]

/-- Only a quote that is left open keeps a text from being read; it stands where the text is, also
when that begins further to the right. -/
theorem readFrom_eq_error {mode : Mode} {position : Nat} {t : Text} {fault : Fault}
    (h : readFrom mode position t = .error fault) : ∃ style opened, fault = .openQuote style opened ∧
      ∀ distance, readFrom (mode.moved distance) (position + distance) t =
        .error (.openQuote style (opened + distance)) := by
  induction t generalizing mode position with
  | nil =>
      cases mode with
      | inSingle w opened =>
          cases h
          exact ⟨.single, opened, rfl, fun _ => rfl⟩
      | inDouble w opened =>
          cases h
          exact ⟨.double, opened, rfl, fun _ => rfl⟩
      | escapedInDouble w opened =>
          cases h
          exact ⟨.double, opened, rfl, fun _ => rfl⟩
      | inCommand w opened depth =>
          cases opened with
          | none => cases h
          | some opened =>
              cases h
              exact ⟨.double, opened, rfl, fun _ => rfl⟩
      | _ => cases h
  | cons c rest ih =>
      obtain ⟨style, opened, hFault, hMoved⟩ := ih (readFrom_cons_eq_error.mp h)
      refine ⟨style, opened, hFault, fun distance => readFrom_cons_eq_error.mpr ?_⟩
      rw [step_moved, Nat.add_right_comm]
      exact hMoved distance

/-- A text that follows a line is read as by itself: its words and operators come behind those of the
line and a separator, and a quote is left open exactly where the text leaves one open. -/
theorem read_behind_line {line : Text} {front : List Lexeme} (hRead : read line = .ok front)
    (hCommand : Text.occursIn [chr '$', chr '('] line = false) (hLast : line.getLast? ≠ some (chr '\\'))
    (text : Text) :
    (∀ back, read text = .ok back → read (line ++ chr '\n' :: text) = .ok
      (front ++ .operator .sequence line.length :: back.map (moved (line.length + 1)))) ∧
    (∀ fault, read (line ++ chr '\n' :: text) = .error fault ↔ ∃ style opened,
      read text = .error (.openQuote style opened) ∧
        fault = .openQuote style (opened + (line.length + 1))) := by
  have hLine : read (line ++ chr '\n' :: text) =
      (readFrom (Mode.between.moved (line.length + 1)) (0 + (line.length + 1)) text).map
        (front ++ .operator .sequence line.length :: ·) := by
    have hOutside : Mode.between.Closes line := trivial
    have hWhole := readFrom_line hCommand hLast hOutside hRead text
    rw [Nat.zero_add, ← Nat.zero_add (line.length + 1)] at hWhole
    exact hWhole
  have hBehind : ∀ back, read text = .ok back → read (line ++ chr '\n' :: text) = .ok
      (front ++ .operator .sequence line.length :: back.map (moved (line.length + 1))) := by
    intro back hBack
    rw [hLine, readFrom_moved (line.length + 1) hBack]
    rfl
  have hOpen : ∀ other, read text = .error other → ∃ style opened, other = .openQuote style opened ∧
      read (line ++ chr '\n' :: text) = .error (.openQuote style (opened + (line.length + 1))) := by
    intro other hOther
    obtain ⟨style, opened, hFault, hMoved⟩ := readFrom_eq_error hOther
    refine ⟨style, opened, hFault, ?_⟩
    rw [hLine, hMoved (line.length + 1)]
    rfl
  refine ⟨hBehind, fun fault => ⟨fun hFault => ?_, ?_⟩⟩
  · cases hText : read text with
    | ok back =>
        rw [hBehind back hText] at hFault
        cases hFault
    | error other =>
        obtain ⟨style, opened, rfl, hMoved⟩ := hOpen other hText
        rw [hMoved] at hFault
        exact ⟨style, opened, rfl, (Except.error.inj hFault).symm⟩
  · rintro ⟨style, opened, hText, rfl⟩
    obtain ⟨_, _, ⟨⟩, hMoved⟩ := hOpen _ hText
    exact hMoved

/-- A line that ends in the middle of a redirection, and a text that is read and one that leaves a quote
open. -/
theorem read_behind_line_redirection :
    let line : Text := "a '\n'b 2>"
    read line = .ok [.word (.plain "a") 0 false, .word (.plain "\nb") 2 true,
      .operator (.redirect .errors) 7] ∧
    read (line ++ chr '\n' :: "&1 2>&1") = .ok [.word (.plain "a") 0 false, .word (.plain "\nb") 2 true,
      .operator (.redirect .errors) 7, .operator .sequence 9, .word (.plain "&1") 10 false,
      .operator .mergeErrors 13] ∧
    read (line ++ chr '\n' :: "x\"y") = .error (.openQuote .double 11) := by
  intro line
  have hRead : read line = .ok [.word (.plain "a") 0 false, .word (.plain "\nb") 2 true,
      .operator (.redirect .errors) 7] := rfl
  have hCommand : Text.occursIn [chr '$', chr '('] line = false := by decide
  have hLast : line.getLast? ≠ some (chr '\\') := by decide
  refine ⟨hRead, ?_, ?_⟩
  · exact (read_behind_line hRead hCommand hLast "&1 2>&1").1 _ rfl
  · exact ((read_behind_line hRead hCommand hLast "x\"y").2 _).mpr ⟨.double, 1, rfl, rfl⟩

end Lexeme

end TreeShell
