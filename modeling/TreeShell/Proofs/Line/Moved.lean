import TreeShell.Proofs.Line.Region

/-! Reading a text that stands further to the right. The words and operators are the same;
only their positions differ. -/
namespace TreeShell.Lexeme

/-- A lexeme that stands some characters later. -/
def moved (distance : Nat) : Lexeme → Lexeme
  | .operator op position => .operator op (position + distance)
  | .word w position quoted => .word w (position + distance) quoted

@[simp] theorem toWord_moved (distance : Nat) (lexeme : Lexeme) :
    (lexeme.moved distance).toWord = lexeme.toWord := by
  cases lexeme <;> rfl

def Draft.moved (distance : Nat) (w : Draft) : Draft := { w with start := w.start + distance }

def Mode.moved (distance : Nat) : Mode → Mode
  | .between => .between
  | .inOperator left => .inOperator left
  | .inWord w => .inWord (w.moved distance)
  | .escaped w => .escaped (w.moved distance)
  | .inSingle w opened => .inSingle (w.moved distance) (opened + distance)
  | .inDouble w opened => .inDouble (w.moved distance) (opened + distance)
  | .escapedInDouble w opened => .escapedInDouble (w.moved distance) (opened + distance)
  | .inCommand w opened depth => .inCommand (w.moved distance) (opened.map (· + distance)) depth

/-- A step within a word moves along with the word, and so does the quote that it opens. -/
theorem stepWord_moved (distance : Nat) (w : Draft) (position : Nat) (c : CodePoint) (rest : Text) :
    stepWord (w.moved distance) (position + distance) c rest =
      (stepWord w position c rest).moved distance := by
  simp only [stepWord]
  repeat' split
  all_goals rfl

/-- Between words a step writes down the position of what begins there, and nothing else depends on
it. -/
theorem stepBetween_moved (distance position : Nat) (c : CodePoint) (rest : Text) :
    stepBetween (position + distance) c rest =
      ((stepBetween position c rest).1.map (moved distance),
        (stepBetween position c rest).2.moved distance) := by
  have hWord := stepWord_moved distance ⟨position, [], false⟩ position c rest
  rw [Draft.moved] at hWord
  simp only [stepBetween]
  split
  · rfl
  · split
    · rfl
    · split
      · dsimp only
        split <;> rfl
      · rw [hWord]
        rfl

/-- A step does the same later on the line, since it looks at positions only to write them down. -/
theorem step_moved (distance : Nat) (mode : Mode) (position : Nat) (c : CodePoint) (rest : Text) :
    step (mode.moved distance) (position + distance) c rest =
      ((step mode position c rest).1.map (moved distance),
        (step mode position c rest).2.moved distance) := by
  cases mode with
  | between => exact stepBetween_moved distance position c rest
  | inWord w =>
      simp only [Mode.moved, step, stepBetween_moved, stepWord_moved]
      split <;> rfl
  | inOperator left =>
      simp only [Mode.moved, step]
      split <;> rfl
  | escaped w => rfl
  | inSingle w opened =>
      simp only [Mode.moved, step]
      split <;> rfl
  | inDouble w opened =>
      simp only [Mode.moved, step]
      split
      · rfl
      · split
        · rfl
        · split <;> rfl
  | escapedInDouble w opened => rfl
  | inCommand w opened depth =>
      simp only [Mode.moved, step]
      generalize (if c == '(' then depth + 1 else if c == ')' then depth - 1 else depth) = depth
      split
      · cases opened <;> rfl
      · rfl

theorem finish_moved (distance : Nat) {mode : Mode} {lexemes : List Lexeme}
    (h : finish mode = .ok lexemes) : finish (mode.moved distance) = .ok (lexemes.map (moved distance)) := by
  cases mode with
  | inSingle w opened => cases h
  | inDouble w opened => cases h
  | escapedInDouble w opened => cases h
  | inCommand w opened depth =>
      cases opened with
      | none => cases h; rfl
      | some opened => cases h
  | _ => cases h; rfl

/-- What is read of a text does not depend on where it begins. -/
theorem readFrom_moved (distance : Nat) {mode : Mode} {position : Nat} {t : Text}
    {lexemes : List Lexeme} (h : readFrom mode position t = .ok lexemes) :
    readFrom (mode.moved distance) (position + distance) t = .ok (lexemes.map (moved distance)) := by
  induction t generalizing mode position lexemes with
  | nil => exact finish_moved distance h
  | cons c rest ih =>
      obtain ⟨later, hLater, rfl⟩ := readFrom_cons_eq_ok.mp h
      have hNext := ih hLater
      rw [Nat.add_right_comm] at hNext
      refine readFrom_cons_eq_ok.mpr ⟨later.map (moved distance), ?_, ?_⟩
      · rw [step_moved]
        exact hNext
      · rw [step_moved, List.map_append]

end TreeShell.Lexeme
