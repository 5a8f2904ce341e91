import Mathlib.Data.List.Basic
import TreeShell.Line.Substitution

/-! The substitutions of a text that stands in a longer one. What precedes the text moves
their places, when it leaves no quote open; what follows it leaves them as they are, when
nothing in it can begin or end a substitution. -/
namespace TreeShell.Substitution

/-- A span that stands some characters later. -/
def Span.moved (span : Span) (distance : Nat) : Span :=
  { span with start := span.start + distance, stop := span.stop + distance }

/-- Spans are found without regard to the position at which a text begins. -/
theorem spansFrom_add (skip : Nat) (single double : Bool) (position distance : Nat) (t : Text) :
    spansFrom skip single double (position + distance) t =
      ((spansFrom skip single double position t).1.map (·.moved distance),
        (spansFrom skip single double position t).2.map (· + distance)) := by
  induction t generalizing skip single double position with
  | nil => rfl
  | cons c rest ih =>
      have hNext (skip : Nat) (single double : Bool) := ih skip single double (position + 1)
      simp only [Nat.add_right_comm position 1 distance] at hNext
      simp only [spansFrom, hNext]
      split
      · rfl
      · split
        · rfl
        · split
          · rfl
          · split
            · rfl
            · split
              · cases closing? (rest.drop 1) with
                | none => rfl
                | some n => simp [Span.moved, Nat.add_right_comm]
              · rfl

/-- At a character the search ends, or it goes on behind the character, with a span that begins there or
with none. -/
theorem spansFrom_cons (skip : Nat) (single double : Bool) (position : Nat) (c : CodePoint) (rest : Text) :
    (spansFrom skip single double position (c :: rest)).1 = [] ∨
    (∃ left single' double', skip ≤ left + 1 ∧ (spansFrom skip single double position (c :: rest)).1 =
      (spansFrom left single' double' (position + 1) rest).1) ∨
    ∃ n, skip = 0 ∧ opens (c :: rest) = true ∧ closing? (rest.drop 1) = some n ∧
      (spansFrom skip single double position (c :: rest)).1 =
        ⟨position, position + n + 3, (rest.drop 1).take n⟩ ::
          (spansFrom (n + 2) single double (position + 1) rest).1 := by
  rw [spansFrom]
  split
  · exact Or.inr (Or.inl ⟨skip - 1, _, _, by omega, rfl⟩)
  · rename_i hSkip
    obtain rfl : skip = 0 := by omega
    split
    · exact Or.inr (Or.inl ⟨1, _, _, by omega, rfl⟩)
    · split
      · exact Or.inr (Or.inl ⟨0, _, _, by omega, rfl⟩)
      · split
        · exact Or.inr (Or.inl ⟨0, _, _, by omega, rfl⟩)
        · split
          · rename_i hBegins
            cases hClosing : closing? (rest.drop 1) with
            | none => exact Or.inl rfl
            | some n => exact Or.inr (Or.inr ⟨n, rfl, ((Bool.and_eq_true _ _).mp hBegins).2, rfl, rfl⟩)
          · exact Or.inr (Or.inl ⟨0, _, _, by omega, rfl⟩)

/-- The search ends at a parenthesis or goes on behind the character at hand. -/
theorem closingFrom?_cons {depth : Nat} {quote : Option CodePoint} {skip : Bool} {offset n : Nat} {c : CodePoint}
    {rest : Text} (h : closingFrom? depth quote skip offset (c :: rest) = some n) :
    c = ')' ∧ n = offset ∨
      ∃ depth quote skip, closingFrom? depth quote skip (offset + 1) rest = some n := by
  simp only [closingFrom?] at h
  grind

/-- What closes a substitution is a parenthesis. -/
theorem exists_split_of_closingFrom? {depth : Nat} {quote : Option CodePoint} {skip : Bool} {offset n : Nat}
    {t : Text} (h : closingFrom? depth quote skip offset t = some n) :
    ∃ inner back, t = inner ++ chr ')' :: back ∧ n = offset + inner.length := by
  induction t generalizing depth quote skip offset with
  | nil => cases h
  | cons c rest ih =>
      rcases closingFrom?_cons h with ⟨rfl, rfl⟩ | ⟨depth, quote, skip, hLater⟩
      · exact ⟨[], rest, rfl, rfl⟩
      · obtain ⟨inner, back, rfl, rfl⟩ := ih hLater
        exact ⟨c :: inner, back, rfl, by rw [List.length_cons]; omega⟩

/-- The parenthesis that closes a substitution stands in the text. -/
theorem closingFrom?_lt {depth : Nat} {quote : Option CodePoint} {skip : Bool} {offset n : Nat} {t : Text}
    (h : closingFrom? depth quote skip offset t = some n) : n < offset + t.length := by
  obtain ⟨inner, back, rfl, rfl⟩ := exists_split_of_closingFrom? h
  rw [List.length_append, List.length_cons]
  omega

/-- Behind a text that has no closing parenthesis none is found. -/
theorem closingFrom?_eq_none {t : Text} (h : chr ')' ∉ t) (depth : Nat) (quote : Option CodePoint)
    (skip : Bool) (offset : Nat) : closingFrom? depth quote skip offset t = none := by
  induction t generalizing depth quote skip offset with
  | nil => rfl
  | cons c rest ih =>
      rw [List.mem_cons, not_or] at h
      have hc : (c == ')') = false := by simp [Ne.symm h.1]
      simp only [closingFrom?, ih h.2, hc, Bool.false_eq_true, if_false]
      repeat' split
      all_goals rfl

/-- A text without a closing parenthesis closes nothing. -/
theorem closingFrom?_append {back : Text} (h : chr ')' ∉ back) (depth : Nat) (quote : Option CodePoint)
    (skip : Bool) (offset : Nat) (t : Text) :
    closingFrom? depth quote skip offset (t ++ back) = closingFrom? depth quote skip offset t := by
  induction t generalizing depth quote skip offset with
  | nil => exact closingFrom?_eq_none h ..
  | cons c rest ih => simp only [List.cons_append, closingFrom?, ih]

/-- A text in which `$(` does not occur has no substitutions. -/
theorem spansFrom_of_no_occurrence {t : Text} (h : Text.occursIn [chr '$', chr '('] t = false) (skip : Nat)
    (single double : Bool) (position : Nat) : spansFrom skip single double position t = ([], none) := by
  induction t generalizing skip single double position with
  | nil => rfl
  | cons c rest ih =>
      rw [Text.occursIn, Bool.or_eq_false_iff] at h
      have hOpens : opens (c :: rest) = false := by rw [opens, h.1, Bool.false_and]
      simp only [spansFrom, ih h.2, hOpens, Bool.and_false, Bool.false_eq_true, if_false, ite_self]

/-- What has no dollar sign has no substitutions. -/
theorem spansFrom_of_not_mem {t : Text} (h : chr '$' ∉ t) (skip : Nat) (single double : Bool)
    (position : Nat) : spansFrom skip single double position t = ([], none) := by
  refine spansFrom_of_no_occurrence ?_ skip single double position
  induction t with
  | nil => rfl
  | cons c rest ih =>
      rw [List.mem_cons, not_or] at h
      simp [Text.occursIn, ih h.2, List.isPrefixOf, h.1]

/-- A text in which nothing belongs to a substitution that stands before it. -/
structure Inert (t : Text) : Prop where
  dollar : chr '$' ∉ t
  close : chr ')' ∉ t
  head : t.head? ≠ some (chr '(')

theorem Inert.opens_append {back : Text} (h : Inert back) (c : CodePoint) (rest : Text) :
    opens (c :: (rest ++ back)) = opens (c :: rest) := by
  cases back with
  | nil => rw [List.append_nil]
  | cons e back =>
      have hHead : e ≠ '(' := by simpa using h.head
      match rest with
      | [] => simp [opens, List.isPrefixOf, Ne.symm hHead]
      | [d] => simp [opens, List.isPrefixOf, bne, hHead]
      | d :: f :: rest => simp [opens, List.isPrefixOf]

theorem opens_cons {c : CodePoint} {rest : Text} (h : opens (c :: rest) = true) :
    ∃ inner, rest = chr '(' :: inner := by
  cases rest with
  | nil => simp [opens, List.isPrefixOf] at h
  | cons d inner =>
      have hBegins : c = '$' ∧ d = '(' := by
        simp [opens, List.isPrefixOf] at h
        exact ⟨h.1.1.symm, h.1.2.symm⟩
      exact ⟨inner, by rw [hBegins.2]⟩

/-- What can neither open nor close a span may follow a text without changing its spans. -/
theorem spansFrom_append {back : Text} (h : Inert back) (skip : Nat) (single double : Bool)
    (position : Nat) (t : Text) :
    spansFrom skip single double position (t ++ back) = spansFrom skip single double position t := by
  induction t generalizing skip single double position with
  | nil => exact spansFrom_of_not_mem h.dollar ..
  | cons c rest ih =>
      simp only [List.cons_append, spansFrom, ih, h.opens_append]
      by_cases hOpens : opens (c :: rest) = true
      · obtain ⟨inner, rfl⟩ := opens_cons hOpens
        have hClosing : closing? (inner ++ back) = closing? inner := closingFrom?_append h.close ..
        simp only [List.cons_append, List.drop_one, List.tail_cons, hClosing]
        cases hClose : closing? inner with
        | none => rfl
        | some n =>
            have hInner : (inner ++ back).take n = inner.take n := by
              have hLess := closingFrom?_lt hClose
              exact List.take_append_of_le_length (by omega)
            simp only [hInner]
      · simp [hOpens]

/-- A text without a quote is passed over between single quotes. -/
theorem spansFrom_single {t : Text} (h : chr '\'' ∉ t) (position : Nat) (rest : Text) :
    spansFrom 0 true false position (t ++ rest) =
      spansFrom 0 true false (position + t.length) rest := by
  induction t generalizing position with
  | nil => rfl
  | cons c t ih =>
      rw [List.mem_cons, not_or] at h
      have hc : (c == '\'') = false := by simp [Ne.symm h.1]
      have hStep : spansFrom 0 true false position (c :: (t ++ rest)) =
          spansFrom 0 true false (position + 1) (t ++ rest) := by
        simp [spansFrom, hc]
      rw [List.cons_append, hStep, ih h.2, List.length_cons]
      congr 1
      omega

end TreeShell.Substitution
