import TreeShell.Patch.Reader
import TreeShell.Proofs.Patch.Locate

/-! A patch as one edit of its input. Replacements are made one after the other, each in the
text that those before it have left, where it may be moved. A `Layout` is such a text with the
stretches of the input that no replacement has touched; a replacement that is made inside of
one of them is a replacement in the input. The main statement is `apply_simultaneous`. -/
namespace TreeShell.Patch

/-- Places from `first` on, before `stop`. -/
structure Span where
  first : Nat
  stop : Nat

/-- A replacement with the place where it is made. -/
structure Placed where
  place : Nat
  splice : Splice

namespace Placed

def stop (made : Placed) : Nat := made.place + made.splice.oldLines.length

def span (made : Placed) : Span := ⟨made.place, made.place + made.splice.newLines.length⟩

/-- Whether a replacement is made wholly in front of some lines or wholly behind them. -/
def Misses (made : Placed) (span : Span) : Prop := made.stop ≤ span.first ∨ span.stop ≤ made.place

instance (made : Placed) (span : Span) : Decidable (made.Misses span) :=
  inferInstanceAs (Decidable (_ ∨ _))

/-- Where lines stand after a replacement that misses them. -/
def push (made : Placed) (span : Span) : Span :=
  if made.stop ≤ span.first then
    ⟨span.first - made.splice.oldLines.length + made.splice.newLines.length,
      span.stop - made.splice.oldLines.length + made.splice.newLines.length⟩
  else span

end Placed

/-- Whether no replacement touches the lines that those before it have put in, nor replaces lines
on both sides of a place where lines were taken out. `spans` tells where the new lines of earlier
replacements stand. -/
def KeepApart : (spans : List Span) → List Placed → Prop
  | _, [] => True
  | spans, made :: rest =>
    (∀ span ∈ spans, made.Misses span) ∧ KeepApart (made.span :: spans.map made.push) rest

instance KeepApart.decidable : ∀ spans run, Decidable (KeepApart spans run)
  | _, [] => isTrue trivial
  | spans, made :: rest =>
    have := KeepApart.decidable (made.span :: spans.map made.push) rest
    inferInstanceAs (Decidable (_ ∧ _))

/-- Replacements made one after the other, each where its old lines are found in the text at
hand. -/
inductive MadeInTurn (maxOffset : Int) : List Placed → List Text → List Text → Prop where
  | done (lines : List Text) : MadeInTurn maxOffset [] lines lines
  | next {made : Placed} {rest : List Placed} {lines result : List Text}
      (found : locate? lines made.splice maxOffset = some (made.place : Int))
      (later : MadeInTurn maxOffset rest (replaceAt lines made.place made.splice) result) :
      MadeInTurn maxOffset (made :: rest) lines result

/-- The lines from `start` on with replacements made at places of theirs, all at once. -/
def replaceAll (lines : List Text) (start : Nat) : List Placed → List Text
  | [] => lines.drop start
  | one :: rest =>
    (lines.drop start).take (one.place - start) ++
      (one.splice.newLines ++ replaceAll lines one.stop rest)

/-- A simultaneous edit: every replacement has a place where its old lines occur, the places are
in order without overlap, and the result has the new lines in all of them. -/
structure Simultaneous (lines result : List Text) (placed : List Placed) : Prop where
  occurs : ∀ one ∈ placed, occursAt lines one.place one.splice.oldLines = true
  apart : placed.Pairwise fun one next => one.stop ≤ next.place
  result_eq : result = replaceAll lines 0 placed

/-- A text in which replacements have been made: stretches that none has touched, with a
replacement between any two of them. -/
inductive Layout where
  | last (gap : List Text)
  | next (gap : List Text) (splice : Splice) (rest : Layout)

namespace Layout

def before : Layout → List Text
  | last gap => gap
  | next gap splice rest => gap ++ (splice.oldLines ++ rest.before)

def after : Layout → List Text
  | last gap => gap
  | next gap splice rest => gap ++ (splice.newLines ++ rest.after)

/-- The replacements in the order of their places. -/
def splices : Layout → List Splice
  | last _ => []
  | next _ splice rest => splice :: rest.splices

/-- The replacements at their places in the text before, with `start` lines in front of it. -/
def placedFrom (start : Nat) : Layout → List Placed
  | last _ => []
  | next gap splice rest =>
    ⟨start + gap.length, splice⟩ ::
      rest.placedFrom (start + gap.length + splice.oldLines.length)

/-- Where the new lines stand in the text after, with `start` lines in front of it. -/
def spansFrom (start : Nat) : Layout → List Span
  | last _ => []
  | next gap splice rest =>
    ⟨start + gap.length, start + gap.length + splice.newLines.length⟩ ::
      rest.spansFrom (start + gap.length + splice.newLines.length)

/-- One more replacement, made in the text after inside of the first untouched stretch that has
its old lines; `start` lines stand in front. -/
inductive Inserts : (start : Nat) → Layout → Placed → Layout → Prop where
  | last {start : Nat} {left right : List Text} {made : Placed}
      (place : made.place = start + left.length) :
      Inserts start (.last (left ++ (made.splice.oldLines ++ right))) made
        (.next left made.splice (.last right))
  | here {start : Nat} {left right : List Text} {made : Placed} {splice : Splice} {rest : Layout}
      (place : made.place = start + left.length) :
      Inserts start (.next (left ++ (made.splice.oldLines ++ right)) splice rest) made
        (.next left made.splice (.next right splice rest))
  | later {start : Nat} {gap : List Text} {made : Placed} {splice : Splice} {rest result : Layout}
      (behind : start + gap.length < made.stop)
      (inserted : Inserts (start + gap.length + splice.newLines.length) rest made result) :
      Inserts start (.next gap splice rest) made (.next gap splice result)

/-- Replacements made one after the other, each inside of an untouched stretch. -/
inductive Grows : Layout → List Placed → Layout → Prop where
  | done (layout : Layout) : Grows layout [] layout
  | next {layout middle result : Layout} {made : Placed} {rest : List Placed}
      (inserted : Inserts 0 layout made middle) (later : Grows middle rest result) :
      Grows layout (made :: rest) result

section Edit

theorem map_splice_placedFrom (layout : Layout) (start : Nat) :
    (layout.placedFrom start).map Placed.splice = layout.splices := by
  induction layout generalizing start with
  | last gap => rfl
  | next gap splice rest ih => rw [placedFrom, List.map_cons, ih, splices]

theorem le_of_mem_placedFrom {layout : Layout} {start : Nat} :
    ∀ one ∈ layout.placedFrom start, start ≤ one.place := by
  induction layout generalizing start with
  | last gap => simp [placedFrom]
  | next gap splice rest ih =>
      intro one hMem
      rcases List.mem_cons.mp hMem with rfl | hMem
      · exact Nat.le_add_right ..
      · have hRest := ih one hMem
        omega

theorem apart_placedFrom (layout : Layout) (start : Nat) :
    (layout.placedFrom start).Pairwise fun one next => one.stop ≤ next.place := by
  induction layout generalizing start with
  | last gap => exact .nil
  | next gap splice rest ih => exact .cons (fun next hMem => le_of_mem_placedFrom next hMem) (ih _)

/-- In a layout every splice finds its old lines at the place that it was given. -/
theorem occursAt_placedFrom {lines : List Text} {layout : Layout} {start : Nat}
    (hStart : start ≤ lines.length) (h : lines.drop start = layout.before) :
    ∀ one ∈ layout.placedFrom start, occursAt lines one.place one.splice.oldLines = true := by
  induction layout generalizing start with
  | last gap => simp [placedFrom]
  | next gap splice rest ih =>
      have hOld : lines.drop (start + gap.length) = splice.oldLines ++ rest.before := by
        rw [← List.drop_drop, h, before, List.drop_left]
      have hRest : lines.drop (start + gap.length + splice.oldLines.length) = rest.before := by
        rw [← List.drop_drop, hOld, List.drop_left]
      have hLength := congrArg List.length h
      rw [before, List.length_drop, List.length_append, List.length_append] at hLength
      intro one hMem
      rcases List.mem_cons.mp hMem with rfl | hMem
      · simp only [occursAt, Int.toNat_natCast, hOld, List.take_left, BEq.rfl, Bool.and_true,
          Bool.and_eq_true, decide_eq_true_eq]
        omega
      · exact ih (by omega) hRest one hMem

/-- Replacing all placed splices at once turns what a layout has before into what it has after. -/
theorem replaceAll_placedFrom {lines : List Text} {layout : Layout} {start : Nat}
    (h : lines.drop start = layout.before) :
    replaceAll lines start (layout.placedFrom start) = layout.after := by
  induction layout generalizing start with
  | last gap => exact h
  | next gap splice rest ih =>
      have hRest : lines.drop (start + gap.length + splice.oldLines.length) = rest.before := by
        rw [← List.drop_drop, ← List.drop_drop, h, before, List.drop_left, List.drop_left]
      have hGap : (lines.drop start).take (start + gap.length - start) = gap := by
        rw [h, before, Nat.add_sub_cancel_left, List.take_left]
      rw [placedFrom, replaceAll, hGap, Placed.stop, ih hRest, after]

/-- A layout is a simultaneous edit of the text before. -/
theorem simultaneous (layout : Layout) :
    Simultaneous layout.before layout.after (layout.placedFrom 0) where
  occurs := occursAt_placedFrom (Nat.zero_le _) List.drop_zero
  apart := layout.apart_placedFrom 0
  result_eq := (replaceAll_placedFrom List.drop_zero).symm

end Edit

section Inserts

variable {start : Nat} {layout result : Layout} {made : Placed}

theorem Inserts.before_eq (h : Inserts start layout made result) :
    result.before = layout.before := by
  induction h with
  | last | here => simp [before]
  | later _ _ ih => rw [before, before, ih]

/-- The text after is that with the replacement made at its place. -/
theorem Inserts.after_eq (h : Inserts start layout made result) :
    ∃ left right, layout.after = left ++ (made.splice.oldLines ++ right) ∧
      result.after = left ++ (made.splice.newLines ++ right) ∧ made.place = start + left.length := by
  induction h with
  | last place => exact ⟨_, _, rfl, rfl, place⟩
  | @here start left right made splice rest place =>
      exact ⟨left, right ++ (splice.newLines ++ rest.after), by simp [after], by simp [after], place⟩
  | @later start gap made splice rest result _ _ ih =>
      obtain ⟨left, right, hOld, hNew, hPlace⟩ := ih
      refine ⟨gap ++ (splice.newLines ++ left), right, ?_, ?_, ?_⟩
      · rw [after, hOld]
        simp
      · rw [after, hNew]
        simp
      · simp only [List.length_append]
        omega

theorem Inserts.splices_perm (h : Inserts start layout made result) :
    result.splices.Perm (made.splice :: layout.splices) := by
  induction h with
  | last | here => exact .refl _
  | later _ _ ih => exact (ih.cons _).trans (.swap ..)

theorem le_of_mem_spansFrom {layout : Layout} {start : Nat} :
    ∀ span ∈ layout.spansFrom start, start ≤ span.first := by
  induction layout generalizing start with
  | last gap => simp [spansFrom]
  | next gap splice rest ih =>
      intro span hMem
      rcases List.mem_cons.mp hMem with rfl | hMem
      · exact Nat.le_add_right ..
      · have hRest := ih span hMem
        omega

/-- A replacement misses the new lines of the others if it is made inside of an untouched
stretch. -/
theorem Inserts.misses (h : Inserts start layout made result) :
    ∀ span ∈ layout.spansFrom start, made.Misses span := by
  induction h with
  | last => simp [spansFrom]
  | @here start left right made splice rest place =>
      intro span hMem
      have hFirst : made.stop ≤ span.first := by
        rcases List.mem_cons.mp hMem with rfl | hMem
        · simp only [Placed.stop, List.length_append]
          omega
        · have hRest := le_of_mem_spansFrom span hMem
          simp only [List.length_append] at hRest
          rw [Placed.stop]
          omega
      exact Or.inl hFirst
  | later _ inserted ih =>
      intro span hMem
      rcases List.mem_cons.mp hMem with rfl | hMem
      · obtain ⟨left, right, _, _, hPlace⟩ := inserted.after_eq
        exact Or.inr (by simp only; omega)
      · exact ih span hMem

/-- Where the old lines of a replacement that misses the others stand, there is an untouched
stretch. -/
theorem exists_inserts {left right : List Text}
    (hAfter : layout.after = left ++ (made.splice.oldLines ++ right))
    (hPlace : made.place = start + left.length)
    (hMisses : ∀ span ∈ layout.spansFrom start, made.Misses span) :
    ∃ result, Inserts start layout made result := by
  induction layout generalizing start left with
  | last gap =>
      rw [after] at hAfter
      subst hAfter
      exact ⟨_, .last hPlace⟩
  | next gap splice rest ih =>
      rw [after] at hAfter
      by_cases hHere : made.stop ≤ start + gap.length
      · have hPrefix : left ++ made.splice.oldLines <+: gap := by
          have hLeft : left ++ made.splice.oldLines <+: gap ++ (splice.newLines ++ rest.after) := by
            rw [hAfter, ← List.append_assoc]
            exact List.prefix_append ..
          refine List.prefix_of_prefix_length_le hLeft (List.prefix_append ..) ?_
          rw [Placed.stop] at hHere
          rw [List.length_append]
          omega
        obtain ⟨back, rfl⟩ := hPrefix
        rw [List.append_assoc]
        exact ⟨_, .here hPlace⟩
      · have hBehind : start + gap.length + splice.newLines.length ≤ made.place :=
          (hMisses _ (List.mem_cons_self ..)).resolve_left hHere
        have hPrefix : gap ++ splice.newLines <+: left := by
          have hGap : gap ++ splice.newLines <+: gap ++ (splice.newLines ++ rest.after) := by
            rw [← List.append_assoc]
            exact List.prefix_append ..
          refine List.prefix_of_prefix_length_le hGap ?_ ?_
          · rw [hAfter]
            exact List.prefix_append ..
          · rw [List.length_append]
            omega
        obtain ⟨left, rfl⟩ := hPrefix
        rw [List.append_assoc, List.append_assoc, List.append_cancel_left_eq,
          List.append_cancel_left_eq] at hAfter
        obtain ⟨result, hInserted⟩ := ih hAfter
          (by simp only [List.length_append] at hPlace; omega)
          fun span hMem => hMisses span (List.mem_cons_of_mem _ hMem)
        exact ⟨_, .later (by omega) hInserted⟩

/-- Lines behind a replacement move together. -/
theorem map_push_spansFrom (h : made.stop ≤ start) (layout : Layout) :
    (layout.spansFrom start).map made.push =
      layout.spansFrom (start - made.splice.oldLines.length + made.splice.newLines.length) := by
  induction layout generalizing start with
  | last gap => rfl
  | next gap splice rest ih =>
      have hMove (count : Nat) : start + count - made.splice.oldLines.length +
          made.splice.newLines.length =
            start - made.splice.oldLines.length + made.splice.newLines.length + count := by
        rw [Placed.stop] at h
        omega
      rw [spansFrom, List.map_cons, ih (by omega), Placed.push, if_pos (by simp only; omega), spansFrom,
        Nat.add_assoc start, hMove, hMove, ← Nat.add_assoc]

/-- The new lines of all replacements are those of the last one and those of the others, which
it has moved. -/
theorem Inserts.spans_perm (h : Inserts start layout made result) :
    (result.spansFrom start).Perm (made.span :: (layout.spansFrom start).map made.push) := by
  induction h with
  | last place =>
      rw [spansFrom, spansFrom, spansFrom, Placed.span, place]
      exact .refl _
  | @here start left right made splice rest place =>
      have hSame : (next (left ++ (made.splice.oldLines ++ right)) splice rest).spansFrom start =
          (next right splice rest).spansFrom made.stop := by
        simp [spansFrom, Placed.stop, place, Nat.add_assoc]
      rw [hSame, map_push_spansFrom (Nat.le_refl _), Placed.stop, Nat.add_sub_cancel, spansFrom,
        Placed.span, place]
  | @later start gap made splice rest result behind inserted ih =>
      have hKept : made.push ⟨start + gap.length, start + gap.length + splice.newLines.length⟩ =
          ⟨start + gap.length, start + gap.length + splice.newLines.length⟩ :=
        if_neg (Nat.not_le.mpr behind)
      rw [spansFrom, spansFrom, List.map_cons, hKept]
      exact (ih.cons _).trans (.swap ..)

end Inserts

section Grows

variable {maxOffset : Int} {layout result : Layout} {run : List Placed} {lines : List Text}

theorem Grows.before_eq (h : Grows layout run result) : result.before = layout.before := by
  induction h with
  | done => rfl
  | next inserted _ ih => rw [ih, inserted.before_eq]

/-- Growing a layout by a run adds the splices of the run. -/
theorem Grows.splices_perm (h : Grows layout run result) :
    result.splices.Perm (run.map Placed.splice ++ layout.splices) := by
  induction h with
  | done => exact .refl _
  | next inserted _ ih =>
      exact (ih.trans (inserted.splices_perm.append_left _)).trans List.perm_middle

end Grows

end Layout

/-- Replacing at a place that is known by what stands in front of it. -/
theorem replaceAt_of_split {left right : List Text} {made : Placed}
    (h : made.place = left.length) :
    replaceAt (left ++ (made.splice.oldLines ++ right)) made.place made.splice =
      left ++ (made.splice.newLines ++ right) := by
  rw [replaceAt, h, Int.toNat_natCast, List.take_left, ← List.drop_drop, List.drop_left,
    List.drop_left, List.append_assoc]

/-- A replacement inside of an untouched stretch, made in the text at hand. -/
theorem Layout.Inserts.replaceAt_after {layout result : Layout} {made : Placed}
    (h : layout.Inserts 0 made result) :
    replaceAt layout.after made.place made.splice = result.after := by
  obtain ⟨left, right, hOld, hNew, hPlace⟩ := h.after_eq
  rw [Nat.zero_add] at hPlace
  rw [hOld, replaceAt_of_split hPlace, hNew]

/-- Keeping apart does not depend on the order in which spans are listed. -/
theorem keepApart_perm {spans others : List Span} (h : spans.Perm others) (run : List Placed) :
    KeepApart spans run ↔ KeepApart others run := by
  induction run generalizing spans others with
  | nil => exact Iff.rfl
  | cons made rest ih =>
      rw [KeepApart, KeepApart, ih ((h.map made.push).cons _)]
      exact and_congr_left fun _ => forall_congr' fun span => by rw [h.mem_iff]

section Run

variable {maxOffset : Int} {run : List Placed} {lines result : List Text}

/-- What a run makes of a layout is what the grown layout has after it. -/
theorem MadeInTurn.after_eq (h : MadeInTurn maxOffset run lines result) {layout final : Layout}
    (hLines : lines = layout.after) (hGrows : layout.Grows run final) : result = final.after := by
  induction h generalizing layout with
  | done =>
      cases hGrows
      exact hLines
  | next found later ih =>
      cases hGrows with
      | next inserted hLater =>
          exact ih (hLines ▸ inserted.replaceAt_after) hLater

/-- The places are determined by the replacements. -/
theorem MadeInTurn.unique (h : MadeInTurn maxOffset run lines result) {other : List Placed}
    {otherResult : List Text} (hOther : MadeInTurn maxOffset other lines otherResult)
    (hSame : run.map Placed.splice = other.map Placed.splice) : run = other := by
  induction h generalizing other with
  | done => exact (List.map_eq_nil_iff.mp hSame.symm).symm
  | @next made rest lines result found _ ih =>
      cases hOther with
      | done => cases hSame
      | @next otherMade _ _ _ otherFound hLater =>
          obtain ⟨place, splice⟩ := made
          obtain ⟨otherPlace, otherSplice⟩ := otherMade
          obtain ⟨hSplice, hRest⟩ := List.cons.inj hSame
          obtain rfl : splice = otherSplice := hSplice
          obtain rfl : place = otherPlace :=
            Int.ofNat_inj.mp (Option.some.inj (found.symm.trans otherFound))
          rw [ih hLater hRest]

/-- Replacements keep apart exactly if each of them is made inside of a stretch that none before
it has touched. -/
theorem MadeInTurn.keepApart_iff (h : MadeInTurn maxOffset run lines result) {layout : Layout}
    (hLines : lines = layout.after) :
    KeepApart (layout.spansFrom 0) run ↔ ∃ final, layout.Grows run final := by
  induction h generalizing layout with
  | done => exact iff_of_true trivial ⟨layout, .done layout⟩
  | @next made rest lines result found later ih =>
      have hStep {middle : Layout} (hInserted : layout.Inserts 0 made middle) :
          KeepApart (made.span :: (layout.spansFrom 0).map made.push) rest ↔
            ∃ final, middle.Grows rest final := by
        rw [← ih (hLines ▸ hInserted.replaceAt_after)]
        exact (keepApart_perm hInserted.spans_perm rest).symm
      constructor
      · rintro ⟨hMisses, hRest⟩
        obtain ⟨left, right, hSplit, hPlace, _⟩ := exists_split_of_locate? found
        obtain ⟨middle, hInserted⟩ := Layout.exists_inserts (hLines ▸ hSplit)
          (by rw [hPlace, Nat.zero_add, Int.toNat_natCast]) hMisses
        obtain ⟨final, hGrows⟩ := (hStep hInserted).mp hRest
        exact ⟨final, .next hInserted hGrows⟩
      · rintro ⟨final, hGrows⟩
        cases hGrows with
        | next hInserted hLater => exact ⟨hInserted.misses, (hStep hInserted).mpr ⟨final, hLater⟩⟩

/-- Replacements of which each is made in front of those before it keep apart. -/
theorem keepApart_of_descending {spans : List Span}
    (hFront : ∀ made ∈ run, ∀ span ∈ spans, made.stop ≤ span.first)
    (hDescending : run.Pairwise fun earlier later => later.stop ≤ earlier.place) :
    KeepApart spans run := by
  induction run generalizing spans with
  | nil => trivial
  | cons made rest ih =>
      have hMade := hFront made (List.mem_cons_self ..)
      obtain ⟨hBelow, hRest⟩ := List.pairwise_cons.mp hDescending
      refine ⟨fun span hMem => Or.inl (hMade span hMem), ih ?_ hRest⟩
      intro later hLater span hMem
      rcases List.mem_cons.mp hMem with rfl | hMem
      · exact hBelow later hLater
      · obtain ⟨other, hOther, rfl⟩ := List.mem_map.mp hMem
        have hStop := hBelow later hLater
        have hOtherFirst := hMade other hOther
        rw [Placed.push, if_pos hOtherFirst]
        rw [Placed.stop] at hOtherFirst
        simp only
        omega

/-- An application that succeeds is a run in which each splice finds its place in what the ones
before have made. -/
theorem exists_madeInTurn {splices : List (Nat × Splice)} {warnings : List Text}
    (h : applySplices maxOffset splices lines = (warnings, .ok result))
    (hInsertion : ∀ entry ∈ splices, entry.2.oldLines = [] → 0 ≤ entry.2.oldIndex) :
    ∃ run, run.map Placed.splice = splices.map Prod.snd ∧ MadeInTurn maxOffset run lines result := by
  induction splices generalizing lines warnings with
  | nil =>
      cases h
      exact ⟨[], rfl, .done _⟩
  | cons entry splices ih =>
      obtain ⟨place, later, hPlace, hLater⟩ := exists_of_applySplices_cons h
      obtain ⟨place, rfl⟩ := Int.eq_ofNat_of_zero_le
        (nonneg_of_locate? hPlace (hInsertion entry (List.mem_cons_self ..)))
      obtain ⟨run, hRun, hMade⟩ :=
        ih hLater fun other hOther => hInsertion other (List.mem_cons_of_mem _ hOther)
      exact ⟨⟨place, entry.2⟩ :: run, by rw [List.map_cons, List.map_cons, hRun], .next hPlace hMade⟩

end Run

theorem nonneg_indexOf (start : Nat) {side : List Text} (h : side = []) :
    0 ≤ indexOf start side := by
  rw [h]
  exact Int.natCast_nonneg start

/-- Lines that are only put in are never declared at a negative place. -/
theorem nonneg_of_mem_orderedSplices {hunks : List Hunk} {reverse : Bool} :
    ∀ entry ∈ orderedSplices hunks reverse, entry.2.oldLines = [] → 0 ≤ entry.2.oldIndex := by
  intro entry hMem hNone
  rw [orderedSplices, List.mem_mergeSort, List.mem_map] at hMem
  obtain ⟨⟨hunk, index⟩, _, rfl⟩ := hMem
  have hSplice : ∃ oldStart newStart old new, hunk.toSplice = .ofLines oldStart newStart old new := by
    cases hunk <;> exact ⟨_, _, _, _, rfl⟩
  obtain ⟨oldStart, newStart, old, new, hSplice⟩ := hSplice
  simp only [hSplice] at hNone ⊢
  split at hNone <;> split <;> simp_all [Splice.ofLines, Splice.reverse, nonneg_indexOf]

/-- A patch that succeeds makes its replacements one after the other. They are one edit of the
input, every hunk being replaced at a place of its own where its old lines occur, if they keep
apart, and this means exactly that each is made inside of a stretch of the input that none before
it has touched. Hunks that are made from the end of the text to its beginning keep apart. -/
theorem apply_simultaneous {lines result warnings : List Text} {hunks : List Hunk} {reverse : Bool}
    {maxOffset : Int} (h : apply lines hunks reverse maxOffset = (warnings, .ok result)) :
    ∃ run, run.map Placed.splice = (orderedSplices hunks reverse).map Prod.snd ∧
      MadeInTurn maxOffset run lines result ∧
      (KeepApart [] run → ∃ placed, (placed.map Placed.splice).Perm (run.map Placed.splice) ∧
        Simultaneous lines result placed) ∧
      (KeepApart [] run ↔ ∃ layout, (Layout.last lines).Grows run layout) ∧
      ((run.Pairwise fun earlier later => later.stop ≤ earlier.place) → KeepApart [] run) := by
  obtain ⟨run, hRun, hMade⟩ := exists_madeInTurn h nonneg_of_mem_orderedSplices
  have hApart : KeepApart [] run ↔ ∃ layout, (Layout.last lines).Grows run layout :=
    hMade.keepApart_iff (show lines = (Layout.last lines).after from rfl)
  refine ⟨run, hRun, hMade, fun hKeep => ?_, hApart, keepApart_of_descending (by simp)⟩
  obtain ⟨layout, hGrows⟩ := hApart.mp hKeep
  refine ⟨layout.placedFrom 0, ?_, ?_⟩
  · rw [layout.map_splice_placedFrom]
    simpa [Layout.splices] using hGrows.splices_perm
  · have hSimultaneous := layout.simultaneous
    rw [hGrows.before_eq, ← hMade.after_eq rfl hGrows] at hSimultaneous
    exact hSimultaneous

/-- Hunks that are both moved; the one that is made last is found behind the first. -/
def movedHunks : List Hunk :=
  [.normal .change 3 3 3 3 [[chr 'B']] [[chr 'b']], .normal .change 1 1 1 1 [[chr 'A'], [chr 'A']] [[chr 'a']]]

/-- Both hunks have drifted; made one after the other, they are also made at the same time. -/
theorem apply_simultaneous_moved :
    ∃ warnings, apply [[chr 'b'], [chr 'a']] movedHunks true defaultMaxOffset =
        (warnings, .ok [[chr 'B'], [chr 'A'], [chr 'A']]) ∧
      ∃ placed, (placed.map Placed.splice).Perm (movedHunks.map fun hunk => hunk.toSplice.reverse) ∧
        Simultaneous [[chr 'b'], [chr 'a']] [[chr 'B'], [chr 'A'], [chr 'A']] placed := by
  let first : Splice := ⟨2, [[chr 'b']], 2, [[chr 'B']]⟩
  let second : Splice := ⟨0, [[chr 'a']], 0, [[chr 'A'], [chr 'A']]⟩
  have hOrder : orderedSplices movedHunks true = [(1, first), (2, second)] :=
    List.mergeSort_of_pairwise (by decide)
  obtain ⟨warnings, hApply⟩ : ∃ warnings, apply [[chr 'b'], [chr 'a']] movedHunks true defaultMaxOffset =
      (warnings, .ok [[chr 'B'], [chr 'A'], [chr 'A']]) := ⟨_, by rw [apply, hOrder]; rfl⟩
  obtain ⟨run, hRun, hMade, hSimultaneous, -⟩ := apply_simultaneous hApply
  have hPlaces : run = [⟨0, first⟩, ⟨1, second⟩] := by
    refine hMade.unique (.next rfl (.next rfl (.done _))) ?_
    rw [hRun, hOrder]
    rfl
  obtain ⟨placed, hPerm, hEdit⟩ := hSimultaneous (by rw [hPlaces]; decide)
  refine ⟨warnings, hApply, placed, ?_, hEdit⟩
  rwa [hPlaces] at hPerm

/-- Lines that occur at a place are among the lines. -/
theorem mem_of_occursAt {lines expected : List Text} {place : Int}
    (h : occursAt lines place expected = true) : ∀ t ∈ expected, t ∈ lines := by
  simp only [occursAt, Bool.and_eq_true, beq_iff_eq] at h
  intro t ht
  rw [← h.2] at ht
  exact List.mem_of_mem_drop (List.mem_of_mem_take ht)

/-- The second hunk is found in front of its place and puts in what the first one looks for, so
that the first one replaces a line that the input does not have. -/
theorem exists_meeting_hunks :
    ∃ sections warnings, parse "1c1\n< a\n---\n> A\n3c3\n< b\n---\n> a\n" = .ok sections ∧
      apply [[chr 'b']] (joinSections sections).hunks false defaultMaxOffset =
        (warnings, .ok [[chr 'A']]) ∧
      ¬∃ placed, (placed.map Placed.splice).Perm
          ((joinSections sections).hunks.map Hunk.toSplice) ∧
        Simultaneous [[chr 'b']] [[chr 'A']] placed := by
  let hunks : List Hunk :=
    [.normal .change 1 1 1 1 [[chr 'a']] [[chr 'A']], .normal .change 3 3 3 3 [[chr 'b']] [[chr 'a']]]
  have hParse : parse "1c1\n< a\n---\n> A\n3c3\n< b\n---\n> a\n" = .ok [⟨none, none, hunks⟩] := rfl
  have hOrder : orderedSplices hunks false =
      [(2, ⟨2, [[chr 'b']], 2, [[chr 'a']]⟩), (1, ⟨0, [[chr 'a']], 0, [[chr 'A']]⟩)] := by
    simp [orderedSplices, List.mergeSort, List.MergeSort.Internal.splitInTwo, hunks, Hunk.toSplice,
      Splice.ofLines, indexOf]
  obtain ⟨warnings, hApply⟩ : ∃ warnings, apply [[chr 'b']] hunks false defaultMaxOffset =
      (warnings, .ok [[chr 'A']]) := ⟨_, by rw [apply, hOrder]; rfl⟩
  refine ⟨_, warnings, hParse, hApply, ?_⟩
  rintro ⟨placed, hPerm, hEdit⟩
  have hSplice : (⟨0, [[chr 'a']], 0, [[chr 'A']]⟩ : Splice) ∈ placed.map Placed.splice :=
    hPerm.mem_iff.mpr (List.mem_cons_self ..)
  obtain ⟨one, hOne, hSame⟩ := List.mem_map.mp hSplice
  have hLine := mem_of_occursAt (hEdit.occurs one hOne) [chr 'a'] (by simp [hSame])
  simp at hLine

end TreeShell.Patch
