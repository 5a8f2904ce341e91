import TreeShell.Proofs.Line.Balanced
import TreeShell.Proofs.Line.Span

/-! The text in the place of a substitution. Where one begins, `$(` is written and no second parenthesis
behind it, and where it ends the parenthesis that closes it, whatever is quoted or escaped in between. -/
namespace TreeShell.Substitution

theorem exists_of_opens {t : Text} (h : opens t = true) :
    ∃ rest, t = chr '$' :: chr '(' :: rest ∧ rest.head? ≠ some (chr '(') := by
  obtain ⟨hBegins, hHead⟩ := (Bool.and_eq_true _ _).mp h
  obtain ⟨rest, rfl⟩ := List.isPrefixOf_iff_prefix.mp hBegins
  exact ⟨rest, rfl, by simpa using hHead⟩

/-- A span stands in a text that begins at a position: the text in its place is the inner text as a
substitution, and that is no arithmetic. -/
def Span.StandsFrom (position : Nat) (t : Text) (span : Span) : Prop :=
  ∃ front back, t = front ++ (enclosed span.inner ++ back) ∧ span.start = position + front.length ∧
    span.stop = span.start + (enclosed span.inner).length ∧ span.inner.head? ≠ some (chr '(')

theorem Span.StandsFrom.cons {position : Nat} {t : Text} {span : Span}
    (h : span.StandsFrom (position + 1) t) (c : CodePoint) : span.StandsFrom position (c :: t) := by
  obtain ⟨front, back, rfl, hStart, hRest⟩ := h
  exact ⟨c :: front, back, rfl, by rw [hStart, List.length_cons]; omega, hRest⟩

/-- A substitution that is closed stands where it begins. -/
theorem standsFrom_of_closing? {t : Text} {n position : Nat} (hOpens : opens t = true)
    (hClosing : closing? (t.drop 2) = some n) :
    Span.StandsFrom position t ⟨position, position + n + 3, (t.drop 2).take n⟩ := by
  obtain ⟨rest, rfl, hHead⟩ := exists_of_opens hOpens
  obtain ⟨inner, back, hSplit, rfl⟩ := exists_split_of_closingFrom? hClosing
  obtain rfl : rest = inner ++ chr ')' :: back := hSplit
  have hInner : (inner ++ chr ')' :: back).take (0 + inner.length) = inner := by
    rw [Nat.zero_add, List.take_left]
  change Span.StandsFrom position _ ⟨position, _, (inner ++ chr ')' :: back).take (0 + inner.length)⟩
  rw [hInner]
  refine ⟨[], back, (enclosed_append inner back).symm, rfl, ?_, ?_⟩
  · rw [length_enclosed, Nat.zero_add, Nat.add_assoc]
  · cases inner with
    | nil => exact nofun
    | cons c inner => exact hHead

/-- Every span that is found begins with a dollar sign and an opening parenthesis, and ends with the
closing one. -/
theorem standsFrom_of_mem_spansFrom (skip : Nat) (single double : Bool) (position : Nat) (t : Text) :
    ∀ span ∈ (spansFrom skip single double position t).1, span.StandsFrom position t := by
  induction t generalizing skip single double position with
  | nil => exact List.forall_mem_nil _
  | cons c rest ih =>
      have hLater (skip : Nat) (single double : Bool) :
          ∀ span ∈ (spansFrom skip single double (position + 1) rest).1,
            span.StandsFrom position (c :: rest) :=
        fun span hMem => (ih skip single double (position + 1) span hMem).cons c
      obtain hNone | ⟨left, single, double, _, hNext⟩ | ⟨n, _, hOpens, hClosing, hFound⟩ :=
        spansFrom_cons skip single double position c rest
      · rw [hNone]
        exact List.forall_mem_nil _
      · rw [hNext]
        exact hLater left single double
      · rw [hFound]
        exact List.forall_mem_cons.mpr ⟨standsFrom_of_closing? hOpens hClosing, hLater _ _ _⟩

/-- A span stands in its line: it is long enough, it ends in the line, its place holds the inner text as
a substitution, and that does not begin with a parenthesis. -/
structure Span.StandsIn (line : Text) (span : Span) : Prop where
  long : span.start + 3 ≤ span.stop
  inside : span.stop ≤ line.length
  text : (line.drop span.start).take (span.stop - span.start) = enclosed span.inner
  single : span.inner.head? ≠ some (chr '(')

theorem Span.StandsFrom.standsIn {line : Text} {span : Span} (h : span.StandsFrom 0 line) :
    span.StandsIn line := by
  obtain ⟨front, back, rfl, hStart, hStop, hSingle⟩ := h
  rw [Nat.zero_add] at hStart
  refine ⟨?_, ?_, ?_, hSingle⟩
  · rw [hStop, length_enclosed]
    omega
  · rw [hStop, hStart, List.length_append, List.length_append]
    omega
  · rw [hStop, Nat.add_sub_cancel_left, hStart, List.drop_left, List.take_left]

theorem standsIn_of_mem_spans (line : Text) : ∀ span ∈ (spans line).1, span.StandsIn line :=
  fun span hMem => (standsFrom_of_mem_spansFrom 0 false false 0 line span hMem).standsIn

/-- Spans in order end in front of the next one. -/
theorem InOrder.isChain {limit start : Nat} {spans : List Span} (h : InOrder limit start spans) :
    spans.IsChain fun span next => span.stop ≤ next.start := by
  induction h with
  | nil => exact .nil
  | cons _ _ _ later ih =>
      cases later with
      | nil => exact .singleton _
      | cons behind _ _ _ => exact .cons_cons behind ih

end TreeShell.Substitution
