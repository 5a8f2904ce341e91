import TreeShell.Proofs.Line.Quoting
import TreeShell.Proofs.Line.Substitution

/-! Texts in which every parenthesis has its other half and nothing is quoted. They do not end a
substitution that they stand in, neither for the search for substitutions nor for the reader of
words, so that a substitution of such a text is found as a whole and is read as one word. -/
namespace TreeShell

/-- Whether a character neither quotes nor is a parenthesis. -/
def isPlain (c : CodePoint) : Bool := !([chr '(', chr ')', chr '\\', chr '\'', chr '"'] : Text).contains c

theorem isPlain_iff {c : CodePoint} :
    isPlain c = true ↔ c ≠ '(' ∧ c ≠ ')' ∧ c ≠ '\\' ∧ c ≠ '\'' ∧ c ≠ '"' := by
  simp [isPlain]

/-- A text without quotes in which parentheses stand in pairs. -/
inductive Balanced : Text → Prop where
  | nil : Balanced []
  | letter {c : CodePoint} {t : Text} (plain : isPlain c = true) (later : Balanced t) : Balanced (c :: t)
  | pair {inner t : Text} (closed : Balanced inner) (later : Balanced t) :
      Balanced (chr '(' :: (inner ++ chr ')' :: t))

theorem Balanced.of_plain {t : Text} (h : t.all isPlain = true) : Balanced t := by
  induction t with
  | nil => exact .nil
  | cons c t ih =>
      rw [List.all_cons, Bool.and_eq_true] at h
      exact .letter h.1 (ih h.2)

/-- Balanced texts side by side are balanced. -/
theorem Balanced.append {front back : Text} (hFront : Balanced front) (hBack : Balanced back) :
    Balanced (front ++ back) := by
  induction hFront with
  | nil => exact hBack
  | letter plain _ ih => exact .letter plain ih
  | @pair inner t closed _ _ ih =>
      rw [List.cons_append, List.append_assoc, List.cons_append]
      exact .pair closed ih

namespace Substitution

def enclosed (t : Text) : Text := "$(" ++ t ++ ")"

theorem enclosed_append (t rest : Text) : enclosed t ++ rest = chr '$' :: chr '(' :: (t ++ chr ')' :: rest) := by
  change (chr '$' :: chr '(' :: (t ++ [chr ')'])) ++ rest = _
  rw [List.cons_append, List.cons_append, List.append_assoc]
  rfl

theorem length_enclosed (t : Text) : (enclosed t).length = t.length + 3 := by
  change (chr '$' :: chr '(' :: (t ++ [chr ')'])).length = _
  simp

theorem balanced_enclosed {t : Text} (h : Balanced t) : Balanced (enclosed t) := by
  rw [← List.append_nil (enclosed t), enclosed_append]
  exact .letter (by decide) (.pair h .nil)

/-- The search for the end goes on behind a balanced text as it was before it. -/
theorem closingFrom?_balanced {t : Text} (h : Balanced t) {depth : Nat} (hDepth : 1 ≤ depth)
    (offset : Nat) (rest : Text) : closingFrom? depth none false offset (t ++ rest) =
      closingFrom? depth none false (offset + t.length) rest := by
  induction h generalizing depth offset rest with
  | nil => rfl
  | @letter c t plain _ ih =>
      obtain ⟨hOpen, hClose, hEscape, hSingle, hDouble⟩ := isPlain_iff.mp plain
      have hStep : closingFrom? depth none false offset (c :: (t ++ rest)) =
          closingFrom? depth none false (offset + 1) (t ++ rest) := by
        simp [closingFrom?, hOpen, hClose, hEscape, hSingle, hDouble]
      rw [List.cons_append, hStep, ih hDepth, List.length_cons, Nat.add_right_comm, Nat.add_assoc]
  | @pair inner t _ _ ihInner ihLater =>
      have hDeeper : ¬ depth + 1 ≤ 1 := by omega
      have hLeave (place : Nat) : closingFrom? (depth + 1) none false place (chr ')' :: (t ++ rest)) =
          closingFrom? depth none false (place + 1) (t ++ rest) := by
        simp [closingFrom?, hDeeper]
      have hEnter : closingFrom? depth none false offset (chr '(' :: (inner ++ chr ')' :: (t ++ rest))) =
          closingFrom? (depth + 1) none false (offset + 1) (inner ++ chr ')' :: (t ++ rest)) := by
        simp [closingFrom?]
      rw [List.cons_append, List.append_assoc, List.cons_append, hEnter, ihInner (by omega), hLeave,
        ihLater hDepth]
      congr 1
      simp only [List.length_cons, List.length_append]
      omega

theorem closing?_balanced {t : Text} (h : Balanced t) (rest : Text) :
    closing? (t ++ chr ')' :: rest) = some t.length := by
  rw [closing?, closingFrom?_balanced h (Nat.le_refl 1), Nat.zero_add]
  rfl

/-- What is to be skipped is skipped. -/
theorem spansFrom_skip (front : Text) (single double : Bool) (position : Nat) (rest : Text) :
    spansFrom front.length single double position (front ++ rest) =
      spansFrom 0 single double (position + front.length) rest := by
  induction front generalizing position with
  | nil => rfl
  | cons c front ih =>
      have hStep : spansFrom (front.length + 1) single double position (c :: (front ++ rest)) =
          spansFrom front.length single double (position + 1) (front ++ rest) := rfl
      rw [List.length_cons, List.cons_append, hStep, ih, Nat.add_right_comm, Nat.add_assoc]

/-- A substitution of a balanced text is found as a whole. -/
theorem spansFrom_enclosed {t : Text} (h : Balanced t) (hHead : t.head? ≠ some (chr '(')) (double : Bool)
    (position : Nat) (rest : Text) : spansFrom 0 false double position (enclosed t ++ rest) =
      let later := spansFrom 0 false double (position + (enclosed t).length) rest
      (⟨position, position + (enclosed t).length, t⟩ :: later.1, later.2) := by
  have hOpens : opens (chr '$' :: chr '(' :: (t ++ chr ')' :: rest)) = true := by
    cases t with
    | nil => rfl
    | cons c t => simpa [opens, List.isPrefixOf] using hHead
  have hInner : (t ++ chr ')' :: rest).take t.length = t := List.take_left
  -- What is skipped behind the dollar sign is the rest of the substitution.
  have hSkip := spansFrom_skip (chr '(' :: (t ++ [chr ')'])) false double (position + 1) rest
  have hText : chr '(' :: (t ++ [chr ')']) ++ rest = chr '(' :: (t ++ chr ')' :: rest) := by simp
  have hLength : (chr '(' :: (t ++ [chr ')'])).length = t.length + 2 := by simp
  have hPlace : position + 1 + (t.length + 2) = position + (enclosed t).length := by
    rw [length_enclosed]
    omega
  have hStop : position + t.length + 3 = position + (enclosed t).length := by
    rw [length_enclosed, Nat.add_assoc]
  rw [hLength, hText, hPlace] at hSkip
  rw [enclosed_append, spansFrom]
  simp [hOpens, closing?_balanced h, hInner, hSkip, hStop]

end Substitution

namespace Lexeme

open Substitution (enclosed enclosed_append)

/-- A substitution takes in what is balanced. -/
theorem readFrom_balanced {t : Text} (h : Balanced t) (w : Draft) (opened : Option Nat) {depth : Nat}
    (hDepth : 1 ≤ depth) (position : Nat) (rest : Text) :
    readFrom (.inCommand w opened depth) position (t ++ rest) =
      readFrom (.inCommand { w with letters := t.reverse ++ w.letters } opened depth)
        (position + t.length) rest := by
  induction h generalizing w depth position rest with
  | nil => rfl
  | @letter c t plain _ ih =>
      have hStep : step (.inCommand w opened depth) position c (t ++ rest) =
          ([], .inCommand (w.push c) opened depth) := by
        obtain ⟨hOpen, hClose, -⟩ := isPlain_iff.mp plain
        have hSome : depth ≠ 0 := by omega
        simp [step, hOpen, hClose, hSome]
      rw [List.cons_append, readFrom_of_step hStep, ih (w.push c) hDepth]
      simp [Draft.push, Nat.add_right_comm, Nat.add_assoc]
  | @pair inner t _ _ ihInner ihLater =>
      have hEnter : step (.inCommand w opened depth) position (chr '(') (inner ++ chr ')' :: (t ++ rest)) =
          ([], .inCommand (w.push (chr '(')) opened (depth + 1)) := by
        simp [step]
      have hLeave (w : Draft) (position : Nat) : step (.inCommand w opened (depth + 1)) position (chr ')')
          (t ++ rest) = ([], .inCommand (w.push (chr ')')) opened depth) := by
        have hSome : depth ≠ 0 := by omega
        simp [step, hSome]
      rw [List.cons_append, List.append_assoc, List.cons_append, readFrom_of_step hEnter,
        ihInner (w.push (chr '(')) (by omega), readFrom_of_step (hLeave _ _), ihLater _ hDepth]
      simp only [Draft.push, List.length_cons, List.length_append, List.reverse_cons, List.reverse_append,
        List.append_assoc, List.cons_append]
      congr 1
      omega

/-- A substitution of a balanced text is one word, and nothing in it is taken off. -/
theorem read_enclosed {t : Text} (h : Balanced t) :
    read (enclosed t) = .ok [.word (.plain (enclosed t)) 0 false] := by
  have hText : enclosed t = chr '$' :: chr '(' :: (t ++ [chr ')']) := rfl
  have hLeave (w : Draft) (position : Nat) :
      step (.inCommand w none 1) position (chr ')') [] = ([], .inWord (w.push (chr ')'))) := rfl
  rw [hText, read,
    readFrom_of_step (show step .between 0 (chr '$') _ = ([], .inCommand ⟨0, [chr '$'], false⟩ none 0) from rfl),
    readFrom_of_step (show step _ _ (chr '(') _ = ([], .inCommand ⟨0, [chr '(', chr '$'], false⟩ none 1) from rfl),
    readFrom_balanced h _ _ (Nat.le_refl 1), readFrom_of_step (hLeave _ _)]
  change Except.ok [Draft.finish _] = _
  simp [Draft.finish, Draft.push, Word.plain]

end Lexeme

end TreeShell
