import TreeShell.Line.ForLoop
import TreeShell.Line.Heredoc
import TreeShell.Line.Substitution

/-! How the parts of a line compare with the line. The parts of a loop have fewer blanks
than the loop, and stay so when an item, which has none, is put into them. The text around
a command with a body is shorter than the whole and has no more blanks. What stands in a
substitution is shorter than the line. These are the quantities by which running a line
comes to an end. -/
namespace TreeShell

namespace Text

/-- Characters of a kind in lines, counting one more for every line. -/
def linesCount (p : CodePoint → Bool) : List Text → Nat
  | [] => 0
  | line :: lines => line.countP p + 1 + linesCount p lines

@[simp] theorem linesCount_nil (p : CodePoint → Bool) : linesCount p [] = 0 := rfl

@[simp] theorem linesCount_cons (p : CodePoint → Bool) (line : Text) (lines : List Text) :
    linesCount p (line :: lines) = line.countP p + 1 + linesCount p lines := rfl

@[simp] theorem linesCount_append (p : CodePoint → Bool) (first second : List Text) :
    linesCount p (first ++ second) = linesCount p first + linesCount p second := by
  induction first with
  | nil => simp
  | cons line lines ih =>
    simp only [List.cons_append, linesCount_cons, ih]
    omega

/-- Joining lines puts one end of line between neighbours. -/
theorem countP_joinLines {p : CodePoint → Bool} (hp : p (chr '\n') = true) (line : Text)
    (lines : List Text) :
    (joinLines (line :: lines)).countP p + 1 = linesCount p (line :: lines) := by
  induction lines generalizing line with
  | nil => simp [joinLines, join]
  | cons next rest ih =>
    have h := ih next
    simp only [joinLines] at h
    simp only [joinLines, join, List.countP_append, List.countP_cons, hp, linesCount_cons] at h ⊢
    simp only [List.countP_nil, if_true]
    omega

theorem splitOn_ne_nil (sep : CodePoint) (t : Text) : splitOn sep t ≠ [] := by
  cases t with
  | nil => simp [splitOn]
  | cons c rest =>
    simp only [splitOn]
    split
    · simp
    · split <;> simp

/-- The pieces of a text, joined, are the text. -/
theorem join_splitOn (sep : CodePoint) (t : Text) : join [sep] (splitOn sep t) = t := by
  induction t with
  | nil => rfl
  | cons c rest ih =>
    simp only [splitOn]
    cases h : splitOn sep rest with
    | nil => exact absurd h (splitOn_ne_nil _ _)
    | cons piece pieces =>
      rw [h] at ih
      split
      · subst c
        simpa [join] using ih
      · cases pieces with
        | nil => simpa [join] using ih
        | cons next more => simpa [join] using ih

/-- The lines of a text, joined, are the text. -/
theorem joinLines_splitOn (t : Text) : joinLines (splitOn (chr '\n') t) = t := join_splitOn (chr '\n') t

/-- Trimming takes away and adds nothing, so no kind of character becomes more frequent. -/
theorem countP_trimWhile_le (p q : CodePoint → Bool) (t : Text) :
    (trimWhile q t).countP p ≤ t.countP p := by
  have hdrop : ∀ s : Text, (s.dropWhile q).countP p ≤ s.countP p := fun s =>
    (List.dropWhile_sublist q).countP_le
  have h := hdrop (t.dropWhile q).reverse
  simp only [List.countP_reverse] at h
  simp only [trimWhile, dropEndWhile, List.countP_reverse]
  exact Nat.le_trans h (hdrop t)

theorem blanks_strip_le (t : Text) : blanks (strip t) ≤ blanks t := countP_trimWhile_le _ _ t

theorem blanks_append (s t : Text) : blanks (s ++ t) = blanks s + blanks t := by
  simp [blanks]

theorem eq_append_of_dropStart? {part t rest : Text} (h : dropStart? part t = some rest) :
    t = part ++ rest := by
  induction part generalizing t with
  | nil => simpa [dropStart?] using h
  | cons p part ih =>
    cases t with
    | nil => simp [dropStart?] at h
    | cons c t =>
      simp only [dropStart?] at h
      split at h
      · rename_i hpc
        rw [hpc, ih h]
        rfl
      · simp at h

/-- No blank is left in the words of a text, and none in the word that was begun. -/
theorem blanks_wordsFrom {word : Text} (hw : blanks word = 0) (t : Text) :
    ∀ item ∈ wordsFrom word t, blanks item = 0 := by
  induction t generalizing word with
  | nil =>
    intro item hitem
    simp only [wordsFrom] at hitem
    split at hitem
    · simp at hitem
    · simp only [List.mem_singleton] at hitem
      rw [hitem]
      simpa [blanks] using hw
  | cons c rest ih =>
    intro item hitem
    simp only [wordsFrom] at hitem
    split at hitem
    · split at hitem
      · exact ih rfl item hitem
      · rcases List.mem_cons.1 hitem with rfl | hitem
        · simpa [blanks] using hw
        · exact ih rfl item hitem
    · rename_i hc
      refine ih ?_ item hitem
      simp only [blanks, List.countP_cons] at hw ⊢
      simp [hw, hc]

/-- A word has no blanks. -/
theorem blanks_words {t item : Text} (h : item ∈ words t) : blanks item = 0 :=
  blanks_wordsFrom rfl t item h

end Text

namespace ForLoop

open Text

/-- The front that is found is followed by a text that is accepted. -/
theorem shortest?_eq_some {α : Type} {accept : Text → Option α} {t front : Text} {a : α}
    (h : shortest? accept t = some (front, a)) : ∃ back, t = front ++ back ∧ accept back = some a := by
  induction t generalizing front with
  | nil =>
    simp only [shortest?, Option.map_eq_some_iff, Prod.mk.injEq] at h
    obtain ⟨a', ha, hf, rfl⟩ := h
    exact ⟨[], by simp [← hf], ha⟩
  | cons c rest ih =>
    simp only [shortest?] at h
    split at h
    · rename_i a' ha
      simp only [Option.some.injEq, Prod.mk.injEq] at h
      exact ⟨c :: rest, by simp [← h.1], by rw [ha, h.2]⟩
    · simp only [Option.map_eq_some_iff, Prod.mk.injEq, Prod.exists] at h
      obtain ⟨front', a', hs, hf, rfl⟩ := h
      obtain ⟨back, hrest, hacc⟩ := ih hs
      exact ⟨back, by rw [hrest, ← hf]; rfl, hacc⟩

/-- What is accepted behind at least one blank holds fewer blanks, which is what the recursion into
loops goes down on. -/
theorem afterBlanks?_eq_some {α : Type} {accept : Text → Option α} {t : Text} {a : α}
    (h : afterBlanks? accept t = some a) :
    ∃ rest, accept rest = some a ∧ blanks rest + 1 ≤ blanks t := by
  induction t with
  | nil => simp [afterBlanks?] at h
  | cons c rest ih =>
    simp only [afterBlanks?] at h
    split at h
    · rename_i hc
      have hcount : blanks (c :: rest) = blanks rest + 1 := by simp [blanks, hc]
      split at h
      · rename_i a' ha
        obtain ⟨rest', hacc, hle⟩ := ih (by rw [ha]; exact h)
        exact ⟨rest', hacc, by omega⟩
      · exact ⟨rest, h, by omega⟩
    · simp at h

theorem blanks_dropWhile_le (q : CodePoint → Bool) (t : Text) : blanks (t.dropWhile q) ≤ blanks t :=
  (List.dropWhile_sublist q).countP_le

theorem blanks_afterSeparator? {t rest : Text} (h : afterSeparator? t = some rest) :
    blanks rest ≤ blanks t := by
  have ht := blanks_dropWhile_le isBlank t
  simp only [afterSeparator?] at h
  split at h
  · rename_i rest' heq
    rw [heq] at ht
    have hrest := blanks_dropWhile_le isBlank rest'
    have hcons : blanks rest' ≤ blanks (chr ';' :: rest') := by simp [blanks, List.countP_cons]
    simp only [Option.some.injEq] at h
    rw [← h]
    omega
  · split at h
    · simp only [Option.some.injEq] at h
      rw [← h]
      exact ht
    · simp at h

theorem blanks_dropStart? {part t rest : Text} (h : dropStart? part t = some rest) :
    blanks rest ≤ blanks t := by
  rw [eq_append_of_dropStart? h, blanks_append]
  omega

/-- At least one blank stands between a loop's items and its body. -/
theorem blanks_body? {t body : Text} (h : body? t = some body) : blanks body + 1 ≤ blanks t := by
  simp only [body?, Option.bind_eq_bind, Option.bind_eq_some_iff] at h
  obtain ⟨rest, hsep, rest', hdo, ⟨front, u⟩, hafter, hbody⟩ := h
  obtain ⟨tail, hshort, hle⟩ := afterBlanks?_eq_some hafter
  obtain ⟨back, htail, _⟩ := shortest?_eq_some hshort
  have h1 := blanks_afterSeparator? hsep
  have h2 := blanks_dropStart? hdo
  simp only [pure, Option.some.injEq] at hbody
  rw [htail, blanks_append] at hle
  rw [← hbody]
  omega

/-- The items and the body of a loop have fewer blanks between them than the line of the loop. -/
theorem blanks_itemsAndBody? {t items body : Text} (h : itemsAndBody? t = some (items, body)) :
    blanks items + blanks body + 1 ≤ blanks t := by
  cases t with
  | nil => simp [itemsAndBody?] at h
  | cons c rest =>
    simp only [itemsAndBody?, Option.map_eq_some_iff, Prod.mk.injEq, Prod.exists] at h
    obtain ⟨front, body', hshort, hitems, rfl⟩ := h
    obtain ⟨back, hrest, hback⟩ := shortest?_eq_some hshort
    have hb := blanks_body? hback
    have hfront : blanks (c :: front) = blanks front + blanks [c] := by
      simp [blanks, List.countP_cons]
    have hwhole : blanks (c :: rest) = blanks rest + blanks [c] := by
      simp [blanks, List.countP_cons]
    rw [← hitems, hfront, hwhole, hrest, blanks_append]
    omega

theorem blanks_skipBlanks? {t rest : Text} (h : skipBlanks? t = some rest) :
    blanks rest + 1 ≤ blanks t := by
  cases t with
  | nil => simp [skipBlanks?] at h
  | cons c t =>
    simp only [skipBlanks?] at h
    split at h
    · rename_i hc
      have hle := blanks_dropWhile_le isBlank t
      simp only [Option.some.injEq] at h
      have hcount : blanks (c :: t) = blanks t + 1 := by simp [blanks, hc]
      rw [← h]
      omega
    · simp at h

theorem blanks_takeName? {t name rest : Text} (h : takeName? t = some (name, rest)) :
    blanks rest ≤ blanks t := by
  simp only [takeName?] at h
  split at h
  · simp at h
  · simp only [Option.some.injEq, Prod.mk.injEq] at h
    rw [← h.2]
    exact blanks_dropWhile_le isWordChar t

/-- The items and the body of a loop together have at least four blanks less than its line. -/
theorem blanks_ofLine? {line : Text} {loop : ForLoop} (h : ofLine? line = some loop) :
    blanks loop.items + blanks loop.body + 4 ≤ blanks line := by
  have hstrip := blanks_strip_le line
  simp only [ofLine?, read?, Option.bind_eq_bind, Option.bind_eq_some_iff] at h
  obtain ⟨r1, ⟨r0, hfor, hskip⟩, ⟨name, r2⟩, hname, r3, ⟨r4, hskip2, hin⟩, ⟨items, body⟩, hafter,
    hloop⟩ := h
  obtain ⟨r5, hboth, hle⟩ := afterBlanks?_eq_some hafter
  have h1 := blanks_dropStart? hfor
  have h2 := blanks_skipBlanks? hskip
  have h3 := blanks_takeName? hname
  have h4 : blanks r4 + 1 ≤ blanks r2 := blanks_skipBlanks? hskip2
  have h5 := blanks_dropStart? hin
  have h6 := blanks_itemsAndBody? hboth
  simp only [pure, Option.some.injEq] at hloop
  rw [← hloop]
  show blanks items + blanks body + 4 ≤ blanks line
  omega

/-- Replacing by a value without blanks makes no new blanks. -/
theorem blanks_replaceFrom {value : Text} (hv : blanks value = 0) (part : Text)
    (accept : Text → Bool) (skip : Nat) (t : Text) :
    blanks (replaceFrom part value accept skip t) ≤ blanks t := by
  have hcons (c : CodePoint) (u : Text) : blanks (c :: u) = blanks u + blanks [c] := by
    simp [blanks, List.countP_cons]
  induction t generalizing skip with
  | nil => simp [replaceFrom]
  | cons c rest ih =>
    simp only [replaceFrom]
    split
    · exact Nat.le_trans (ih _) (by rw [hcons]; omega)
    · split
      · split
        · rw [blanks_append, hv, hcons]
          have := ih (part.length - 1)
          omega
        · rw [hcons, hcons c rest]
          have := ih 0
          omega
      · rw [hcons, hcons c rest]
        have := ih 0
        omega

/-- An item without blanks adds none to the body. -/
theorem blanks_bodyFor {item : Text} (hi : blanks item = 0) (loop : ForLoop) :
    blanks (loop.bodyFor item) ≤ blanks loop.body :=
  Nat.le_trans (blanks_replaceFrom hi _ _ _ _) (blanks_replaceFrom hi _ _ _ _)

theorem blanks_itemsLine (loop : ForLoop) : blanks loop.itemsLine ≤ blanks loop.items + 1 := by
  have h := blanks_strip_le loop.items
  have hecho : blanks "echo " = 1 := by decide
  simp only [itemsLine, blanks_append, hecho]
  omega

end ForLoop

namespace Heredoc

open Text

/-- The command of a header begins inside of its text. -/
theorem start_lt_of_at? {t : Text} {start position : Nat} {header : HeredocHeader}
    (h : HeredocHeader.at? t start position = some header) : start < t.length := by
  simp only [HeredocHeader.at?] at h
  split at h
  · simp at h
  · rename_i hcommand
    apply Decidable.byContradiction
    intro hge
    have hnil : (t.take position).drop start = [] := by
      apply List.drop_eq_nil_of_le
      simp only [List.length_take]
      omega
    apply hcommand
    right
    rw [hnil]
    rfl

/-- Lines `lead` and `rest` around a header that begins inside of its own lines. All of
them together weigh as much as `weight` says, for any kind of character that includes ends
of line. -/
def Surrounds (lead rest : List Text) (weight : (CodePoint → Bool) → Nat) : Prop :=
  ∃ (kept : List Text) (candidate : Text) (start : Nat), start < candidate.length ∧
    lead = kept ++ (if start = 0 then [] else [candidate.take (start - 1)]) ∧
    ∀ p : CodePoint → Bool, p (chr '\n') = true →
      linesCount p kept + (candidate.countP p + 1) + linesCount p rest = weight p

theorem Surrounds.congr {lead rest : List Text} {weight weight' : (CodePoint → Bool) → Nat}
    (h : Surrounds lead rest weight) (hw : ∀ p, p (chr '\n') = true → weight p = weight' p) :
    Surrounds lead rest weight' := by
  obtain ⟨kept, candidate, start, hstart, hlead, hcount⟩ := h
  exact ⟨kept, candidate, start, hstart, hlead, fun p hp => (hcount p hp).trans (hw p hp)⟩

/-- Lines that are held back weigh as much when they are joined. -/
theorem countP_candidate {p : CodePoint → Bool} (hp : p (chr '\n') = true) (held : List Text) (line : Text) :
    (joinLines (held ++ [line])).countP p + 1 = linesCount p held + (line.countP p + 1) := by
  have hjoin : (joinLines (held ++ [line])).countP p + 1 = linesCount p (held ++ [line]) := by
    cases held with
    | nil => exact countP_joinLines hp line []
    | cons first tail => exact countP_joinLines hp first (tail ++ [line])
  simpa using hjoin

/-- The lines before a header, its own lines and the lines after it make up the text. -/
theorem surrounds_of_findHeader? {before held lines lead rest : List Text}
    {header : HeredocHeader} (h : findHeader? before held lines = some (lead, header, rest)) :
    Surrounds lead rest fun p => linesCount p before + linesCount p (held ++ lines) := by
  induction lines generalizing before held with
  | nil => simp [findHeader?] at h
  | cons line more ih =>
    have hpass (hnext : findHeader? (before ++ [joinLines (held ++ [line])]) [] more =
        some (lead, header, rest)) := (ih hnext).congr fun p hp => by
      have hjoin := countP_candidate hp held line
      simp only [linesCount_append, linesCount_cons, linesCount_nil, List.nil_append]
      show _ = linesCount p before + (linesCount p held + (line.countP p + 1 + linesCount p more))
      omega
    simp only [findHeader?] at h
    split at h
    · exact (ih h).congr fun p _ => by simp
    · split at h
      · simpa using hpass h
      · split at h
        · simpa using hpass h
        · rename_i start position _ _ _ hat
          simp only [Option.some.injEq, Prod.mk.injEq] at h
          obtain ⟨hlead, _, hrest⟩ := h
          subst hrest
          refine ⟨before, joinLines (held ++ [line]), start, start_lt_of_at? hat, hlead.symm, ?_⟩
          intro p hp
          have hjoin := countP_candidate hp held line
          simp only [linesCount_append, linesCount_cons]
          omega

/-- The lines after a closing line are among the lines after the header. -/
theorem linesCount_divide (p : CodePoint → Bool) (header : HeredocHeader) (lines : List Text) :
    linesCount p ((header.divide lines).2.getD ([], [])).2 ≤ linesCount p lines := by
  induction lines with
  | nil => simp [HeredocHeader.divide]
  | cons line rest ih =>
    simp only [HeredocHeader.divide]
    split
    · simp
    · simp only [linesCount_cons]
      omega

/-- Joined lines weigh one less than the lines. -/
theorem countP_joinLines_eq {p : CodePoint → Bool} (hp : p (chr '\n') = true) (lines : List Text) :
    (joinLines lines).countP p = linesCount p lines - 1 := by
  cases lines with
  | nil => rfl
  | cons line rest =>
    have h := countP_joinLines hp line rest
    omega

/-- What stands around a command with a body is shorter than the whole and has no more
blanks. -/
theorem parse_lighter {t : Text} {d : Heredoc} (h : parse t = .ok (some d)) :
    (d.lead.length < t.length ∧ blanks d.lead ≤ blanks t) ∧
      (d.trail.length < t.length ∧ blanks d.trail ≤ blanks t) := by
  simp only [parse] at h
  split at h
  · simp at h
  · rename_i lead header rest hfind
    obtain ⟨kept, candidate, start, hstart, hlead, hcount⟩ := surrounds_of_findHeader? hfind
    have hd : d.lead = joinLines lead ∧
        d.trail = joinLines ((header.divide rest).2.getD ([], [])).2 := by
      simp only [bind, Except.bind] at h
      split at h
      · simp at h
      · split at h
        · simp at h
        · simp only [pure, Except.pure, Except.ok.injEq, Option.some.injEq] at h
          subst h
          exact ⟨rfl, rfl⟩
    have hweigh (p : CodePoint → Bool) (hp : p (chr '\n') = true) :
        t.countP p + 1 = linesCount p kept + (candidate.countP p + 1) + linesCount p rest := by
      have hsplit := hcount p hp
      simp only [linesCount_nil, List.nil_append, Nat.zero_add] at hsplit
      rw [hsplit]
      have hjoin := countP_joinLines_eq hp (splitOn (chr '\n') t)
      rw [joinLines_splitOn] at hjoin
      omega
    have hsize := hweigh (fun _ => true) rfl
    have hblank := hweigh isBlank (by decide)
    have htrail (p : CodePoint → Bool) := linesCount_divide p header rest
    have hfront (p : CodePoint → Bool) :
        linesCount p lead ≤ linesCount p kept + ((candidate.take (start - 1)).countP p + 1) := by
      rw [hlead]
      split <;> simp
    have htake : (candidate.take (start - 1)).countP isBlank ≤ candidate.countP isBlank :=
      (List.take_sublist _ _).countP_le
    have hshort : linesCount (fun _ => true) lead ≤
        linesCount (fun _ => true) kept + start := by
      rw [hlead]
      split
      · simp
      · simp
        omega
    rw [← List.countP_true] at hstart
    rw [hd.1, hd.2]
    simp only [← List.countP_true, blanks]
    rw [countP_joinLines_eq rfl, countP_joinLines_eq rfl, countP_joinLines_eq (by decide),
      countP_joinLines_eq (by decide)]
    have h1 := htrail fun _ => true
    have h2 := htrail isBlank
    have h3 := hfront isBlank
    omega

end Heredoc

namespace Substitution

/-- What stands in a substitution is shorter than the text that it was found in. -/
theorem length_spansFrom (skip : Nat) (single double : Bool) (position : Nat) (t : Text) :
    ∀ span ∈ (spansFrom skip single double position t).1, span.inner.length < t.length := by
  induction t generalizing skip single double position with
  | nil => simp [spansFrom]
  | cons c rest ih =>
    have hnext (skip : Nat) (single double : Bool) :
        ∀ span ∈ (spansFrom skip single double (position + 1) rest).1,
          span.inner.length < (c :: rest).length := fun span hspan => by
      have := ih skip single double (position + 1) span hspan
      simp only [List.length_cons]
      omega
    simp only [spansFrom]
    split
    · exact hnext _ _ _
    · split
      · exact hnext _ _ _
      · split
        · exact hnext _ _ _
        · split
          · exact hnext _ _ _
          · split
            · split
              · simp
              · intro span hspan
                rcases List.mem_cons.1 hspan with rfl | hspan
                · simp only [List.length_take, List.length_drop, List.length_cons]
                  omega
                · exact hnext _ _ _ span hspan
            · exact hnext _ _ _

theorem length_spans {line : Text} {span : Span} (h : span ∈ (spans line).1) :
    span.inner.length < line.length :=
  length_spansFrom 0 false false 0 line span h

end Substitution

end TreeShell
