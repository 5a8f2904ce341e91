import Mathlib.Data.List.Basic
import TreeShell.Proofs.Patch.Locate

/-! Replacements that all fit. `Rewrites` says what several replacements mean together, as
one simultaneous edit of the lines; making them one by one from the last to the first gives
that result, and none of them is moved. The distance that a replacement may be moved plays
no part, since no search takes place. -/
namespace TreeShell.Patch

/-- Replacements made one after the other, each one exactly where it is declared. -/
inductive MadeInPlace (maxOffset : Int) : List (Nat × Splice) → List Text → List Text → Prop where
  | done (lines : List Text) : MadeInPlace maxOffset [] lines lines
  | next {number : Nat} {splice : Splice} {rest : List (Nat × Splice)} {lines result : List Text}
      (found : locate? lines splice maxOffset = some splice.oldIndex)
      (later : MadeInPlace maxOffset rest (replaceAt lines splice.oldIndex splice) result) :
      MadeInPlace maxOffset ((number, splice) :: rest) lines result

/-- Splices that are made in place one after the other are made in place together. -/
theorem MadeInPlace.trans {maxOffset : Int} {first second : List (Nat × Splice)}
    {start middle finish : List Text} (hFirst : MadeInPlace maxOffset first start middle)
    (hSecond : MadeInPlace maxOffset second middle finish) :
    MadeInPlace maxOffset (first ++ second) start finish := by
  induction hFirst with
  | done => exact hSecond
  | next found _ ih => exact .next found (ih hSecond)

/-- Replacements that stay where they are declared give their result and no warning. -/
theorem MadeInPlace.applySplices_eq {maxOffset : Int} {splices : List (Nat × Splice)}
    {lines result : List Text} (h : MadeInPlace maxOffset splices lines result) :
    applySplices maxOffset splices lines = ([], .ok result) := by
  induction h with
  | done => rfl
  | next found _ ih => simp [applySplices, found, ih]

/-- The lines with every replacement made at once. `start` is the number of lines before
them; the replacements come in order, each declared where its old lines stand. -/
inductive Rewrites : (start : Nat) → List Splice → List Text → List Text → Prop where
  | done (start : Nat) (lines : List Text) : Rewrites start [] lines lines
  | replace {start : Nat} {gap before after : List Text} {splice : Splice} {rest : List Splice}
      (declared : splice.oldIndex = start + gap.length)
      (ascending : ∀ next ∈ rest, splice.oldIndex < next.oldIndex)
      (later : Rewrites (start + gap.length + splice.oldLines.length) rest before after) :
      Rewrites start (splice :: rest) (gap ++ (splice.oldLines ++ before))
        (gap ++ (splice.newLines ++ after))

/-- A splice whose old lines stand at its index is located there, before any other place is tried.
-/
theorem locate?_of_append (maxOffset : Int) {front back : List Text} {splice : Splice}
    (hIndex : splice.oldIndex = front.length) :
    locate? (front ++ (splice.oldLines ++ back)) splice maxOffset = some splice.oldIndex := by
  have hDeclared : min splice.oldIndex ((front ++ (splice.oldLines ++ back)).length : Int) =
      splice.oldIndex := by
    simp only [List.length_append]
    omega
  simp only [locate?, hDeclared]
  split
  · rfl
  · rw [if_pos (occursAt_iff.mpr ⟨front, back, rfl, hIndex⟩)]

/-- A splice in its place exchanges the old lines for the new ones. -/
theorem replaceAt_of_append {front back : List Text} {splice : Splice}
    (hIndex : splice.oldIndex = front.length) :
    replaceAt (front ++ (splice.oldLines ++ back)) splice.oldIndex splice =
      front ++ (splice.newLines ++ back) := by
  rw [replaceAt, hIndex, Int.toNat_natCast, List.take_left, ← List.drop_drop, List.drop_left,
    List.drop_left, List.append_assoc]

/-- Making the replacements from the last to the first gives what they mean together. Lines
in front are left alone; the induction moves lines to the front as it goes on. -/
theorem Rewrites.madeInPlace {start : Nat} {splices : List Splice} {before after : List Text}
    (h : Rewrites start splices before after) (maxOffset : Int) {front : List Text}
    (hFront : front.length = start) {numbered : List (Nat × Splice)}
    (hNumbered : numbered.map Prod.snd = splices) :
    MadeInPlace maxOffset numbered.reverse (front ++ before) (front ++ after) := by
  induction h generalizing front numbered with
  | done =>
      rw [List.map_eq_nil_iff.mp hNumbered]
      exact .done _
  | @replace start gap before after splice rest declared _ _ ih =>
      obtain ⟨⟨number, _⟩, others, rfl, rfl, hOthers⟩ := List.map_eq_cons_iff.mp hNumbered
      rename Splice => splice
      have hGap : splice.oldIndex = ((front ++ gap).length : Int) := by
        rw [declared, List.length_append, hFront]
        rfl
      have hLength : (front ++ gap ++ splice.oldLines).length =
          start + gap.length + splice.oldLines.length := by simp [hFront, Nat.add_assoc]
      have hLater := ih hLength hOthers
      rw [List.reverse_cons]
      rw [List.append_assoc (front ++ gap), List.append_assoc (front ++ gap)] at hLater
      refine MadeInPlace.trans (by simpa using hLater) (.next ?_ ?_)
      · rw [← List.append_assoc, locate?_of_append maxOffset hGap]
      · rw [← List.append_assoc, replaceAt_of_append hGap, List.append_assoc]
        exact .done _

/-- The splices of a rewriting stand one behind the other in the old lines. -/
theorem Rewrites.pairwise {start : Nat} {splices : List Splice} {before after : List Text}
    (h : Rewrites start splices before after) :
    splices.Pairwise fun first second => first.oldIndex < second.oldIndex := by
  induction h with
  | done => exact .nil
  | replace _ ascending _ ih => exact .cons ascending ih

/-- Replacements that are declared in increasing order are made in the opposite order. -/
theorem orderedSplices_eq {hunks : List Hunk} {reverse : Bool} {splices : List Splice}
    (hSplices : splices = hunks.map fun hunk =>
      if reverse then hunk.toSplice.reverse else hunk.toSplice)
    (h : splices.Pairwise fun first second => first.oldIndex < second.oldIndex) :
    ∃ numbered : List (Nat × Splice), numbered.map Prod.snd = splices ∧
      orderedSplices hunks reverse = numbered.reverse := by
  let numbered := hunks.zipIdx.map fun entry =>
    (entry.2 + 1, if reverse then entry.1.toSplice.reverse else entry.1.toSplice)
  have hNumbered : numbered.map Prod.snd = splices := by
    rw [hSplices, List.map_map]
    conv_rhs => rw [← List.zipIdx_map_fst 0 hunks, List.map_map]
    rfl
  have hAscending : numbered.Pairwise fun first second => first.2.oldIndex < second.2.oldIndex := by
    rw [← hNumbered, List.pairwise_map] at h
    exact h
  have hInjective : ∀ ⦃first⦄, first ∈ numbered → ∀ ⦃second⦄, second ∈ numbered →
      first.2.oldIndex = second.2.oldIndex → first = second := by
    apply List.Pairwise.forall_of_forall_of_flip
    · intro first _ _
      rfl
    · refine hAscending.imp ?_
      intro first second hLess hSame
      omega
    · refine hAscending.imp ?_
      intro first second hLess hSame
      omega
  refine ⟨numbered, hNumbered, ?_⟩
  apply @List.Perm.eq_of_pairwise _ fun first second => second.2.oldIndex ≤ first.2.oldIndex
  · intro first second hFirst hSecond hLeft hRight
    refine hInjective ?_ (List.mem_reverse.mp hSecond) (by omega)
    exact (List.mergeSort_perm _ _).mem_iff.mp hFirst
  · have hSorted := @List.pairwise_mergeSort _
      (fun first second : Nat × Splice => decide (second.2.oldIndex ≤ first.2.oldIndex))
      (by simp only [decide_eq_true_eq]; omega) (by simp only [Bool.or_eq_true, decide_eq_true_eq]; omega)
      numbered
    exact hSorted.imp (by simp)
  · rw [List.pairwise_reverse]
    exact hAscending.imp (by omega)
  · exact (List.mergeSort_perm _ _).trans (List.reverse_perm _).symm

/-- Hunks whose replacements fit are applied where they are declared. -/
theorem Rewrites.madeInPlace_orderedSplices {hunks : List Hunk} {reverse : Bool}
    {splices : List Splice} {before after : List Text}
    (h : Rewrites 0 splices before after)
    (hSplices : splices = hunks.map fun hunk =>
      if reverse then hunk.toSplice.reverse else hunk.toSplice) (maxOffset : Int) :
    MadeInPlace maxOffset (orderedSplices hunks reverse) before after := by
  obtain ⟨numbered, hNumbered, hOrdered⟩ := orderedSplices_eq hSplices h.pairwise
  rw [hOrdered]
  exact h.madeInPlace maxOffset List.length_nil hNumbered

end TreeShell.Patch
