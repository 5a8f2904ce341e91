import TreeShell.Proofs.Line.Substitution

/-! The places of substitutions. They stand one behind the other in their line, so that texts that
are put there from the last place to the first stand where the line held the places: what is put into
a later one does not move an earlier one. -/
namespace TreeShell.Substitution

/-- Spans that stand one behind the other between two positions. -/
inductive InOrder (limit : Nat) : (start : Nat) → List Span → Prop where
  | nil (start : Nat) : InOrder limit start []
  | cons {start : Nat} {span : Span} {rest : List Span} (behind : start ≤ span.start)
      (long : span.start + 3 ≤ span.stop) (inside : span.stop ≤ limit)
      (later : InOrder limit span.stop rest) : InOrder limit start (span :: rest)

theorem InOrder.mono {limit start first : Nat} {spans : List Span} (h : InOrder limit start spans)
    (hFirst : first ≤ start) : InOrder limit first spans := by
  cases h with
  | nil => exact .nil first
  | cons behind long inside later => exact .cons (Nat.le_trans hFirst behind) long inside later

/-- Spans are found one behind the other: the induction is on the text, and what is passed over
belongs to the span or the escape at hand. -/
theorem inOrder_spansFrom (skip : Nat) (single double : Bool) (position : Nat) (t : Text) :
    InOrder (position + t.length) (position + skip) (spansFrom skip single double position t).1 := by
  induction t generalizing skip single double position with
  | nil => exact .nil _
  | cons c rest ih =>
      have hNext (left : Nat) (single double : Bool) : InOrder (position + (c :: rest).length)
          (position + 1 + left) (spansFrom left single double (position + 1) rest).1 := by
        have hLater := ih left single double (position + 1)
        rwa [Nat.add_assoc position 1 rest.length, Nat.add_comm 1 rest.length] at hLater
      obtain hNone | ⟨left, single, double, hLeft, hLater⟩ | ⟨n, rfl, _, hClosing, hFound⟩ :=
        spansFrom_cons skip single double position c rest
      · rw [hNone]
        exact .nil _
      · rw [hLater]
        exact (hNext left single double).mono (by omega)
      · have hLess := closingFrom?_lt hClosing
        rw [List.length_drop] at hLess
        rw [hFound]
        refine .cons (Nat.le_refl _) ?_ ?_ ((hNext (n + 2) single double).mono ?_)
        · dsimp only
          omega
        · rw [List.length_cons]
          dsimp only
          omega
        · dsimp only
          omega

/-- The spans of a line stand in it one behind the other. -/
theorem inOrder_spans (line : Text) : InOrder line.length 0 (spans line).1 := by
  have hSpans := inOrder_spansFrom 0 false false 0 line
  rwa [Nat.zero_add] at hSpans

/-- The rest of a line from a position on, with texts in the places of spans. -/
def filledFrom (line : Text) : (start : Nat) → List (Span × Text) → Text
  | start, [] => line.drop start
  | start, (span, output) :: rest =>
    (line.drop start).take (span.start - start) ++ output ++ filledFrom line span.stop rest

/-- A line with texts in the places of spans. -/
def filled (line : Text) (found : List (Span × Text)) : Text := filledFrom line 0 found

/-- Puts a text in the place of its span. -/
def spliceOne (found : Span × Text) (result : Text) : Text := splice result found.1 found.2

/-- Splicing from the last span to the first keeps the positions of the spans that are still to be
replaced. -/
theorem foldr_spliceOne {line : Text} {start : Nat} {found : List (Span × Text)}
    (h : InOrder line.length start (found.map Prod.fst)) (hStart : start ≤ line.length) :
    found.foldr spliceOne line = line.take start ++ filledFrom line start found := by
  induction found generalizing start with
  | nil => exact (line.take_append_drop start).symm
  | cons entry rest ih =>
      obtain ⟨span, output⟩ := entry
      rcases h with _ | ⟨behind, long, inside, later⟩
      dsimp only at behind long inside later
      -- The line is as it was up to the end of the span, since all later texts stand behind it.
      have hStop : (line.take span.stop).length = span.stop := List.length_take_of_le inside
      have hFront (later : Text) : (line.take span.stop ++ later).take span.start = line.take span.start := by
        rw [List.take_append_of_le_length (by omega), List.take_take, Nat.min_eq_left (by omega)]
      have hBack (later : Text) : (line.take span.stop ++ later).drop span.stop = later :=
        List.drop_left' hStop
      have hSplit : line.take span.start =
          line.take start ++ (line.drop start).take (span.start - start) := by
        rw [← List.take_add, Nat.add_sub_cancel' behind]
      rw [List.foldr_cons, ih later inside]
      simp only [spliceOne, splice, hFront, hBack, hSplit, filledFrom, List.append_assoc]

/-- The spans that have got a text stand one behind the other as well. -/
theorem InOrder.zip {limit start : Nat} {spans : List Span} (h : InOrder limit start spans)
    (outputs : List Text) : InOrder limit start ((spans.zip outputs).map Prod.fst) := by
  induction h generalizing outputs with
  | nil start => exact .nil start
  | cons behind long inside _ ih =>
      cases outputs with
      | nil => exact .nil _
      | cons output outputs => exact .cons behind long inside (ih outputs)

/-- Texts that are put into the places of a line from the last one to the first fill the line. -/
theorem foldr_spliceOne_spans (line : Text) (outputs : List Text) :
    ((spans line).1.zip outputs).foldr spliceOne line = filled line ((spans line).1.zip outputs) :=
  foldr_spliceOne ((inOrder_spans line).zip outputs) (Nat.zero_le _)

end TreeShell.Substitution
