import TreeShell.Proofs.Line.Balanced
import TreeShell.Proofs.Shell.Output

/-! Substitutions that are nested. Level after level is taken down to a depth that is set; what stands
below it is text, which every level around it prints as it is. -/
namespace TreeShell

open Substitution (enclosed)

/-- A session after a line that did not fail, with what has been said. -/
def Session.noted (session : Session) (notes : List Text) : Session :=
  { session with exitCode := 0, warnings := notes }

/-- A text that is one word without a wildcard, and that keeps all of it when it is captured. -/
structure PrintsWhole (t : Text) : Prop where
  reads : ReadsAsWords t [.word (.plain t) 0 false]
  noGlob : hasGlob t = false
  kept : Text.dropFinal (chr '\n') t = t

/-- Whether `echo` prints its words and says the same each time. -/
def PrintsWords (registry : Registry) (note : List Text) : Prop :=
  ∃ printer, registry.find "echo" = .ok printer ∧ ∀ words session,
    (printer.run words none).run.run session =
      (.ok (Text.join [chr ' '] (words.map Word.text)),
        { session with warnings := session.warnings ++ note })

theorem printsWords_builtin : PrintsWords Builtin.registry [] := by
  refine ⟨Builtin.echo, rfl, fun words session => ?_⟩
  rw [List.append_nil]
  rfl

theorem printsWords_announcing : PrintsWords Builtin.registry.announcing ["echo"] :=
  ⟨_, Registry.find_announcing (show Builtin.registry.find "echo" = .ok Builtin.echo from rfl),
    fun _ _ => rfl⟩

namespace PrintsWhole

variable {registry : Registry} {note : List Text} {t : Text}

theorem expand_eq (h : PrintsWhole t) (v : Volume) : Wildcard.expand v none [.plain t] = [.plain t] := by
  simp [Wildcard.expand, Wildcard.expandFrom, Word.plain, h.noGlob]

/-- Capturing an echoed text gives the text, and notes what its printing notes. -/
theorem run_capture (h : PrintsWhole t) (hPrints : PrintsWords registry note) (session : Session)
    (notes : List Text) : (registry.capture (echoed t)).run.run (session.noted notes) =
      (.ok t, session.noted (notes ++ note)) := by
  obtain ⟨printer, hFind, hRun⟩ := hPrints
  have hPrinted := hRun [.plain t] (session.noted notes)
  rw [← h.expand_eq (session.noted notes).volume] at hPrinted
  have hCapture := registry.run_capture (Registry.oneCommand_echo h.reads) hFind hPrinted
  rw [h.expand_eq] at hCapture
  change _ = (Except.ok (Text.dropFinal (chr '\n') t), _) at hCapture
  rw [h.kept] at hCapture
  exact hCapture

/-- As a line of its own it is printed as it stands. -/
theorem run_line (h : PrintsWhole t) (hPrints : PrintsWords registry note) (session : Session)
    (notes : List Text) (runHeredoc : Heredoc → Action Text) :
    (registry.runBlockWith (echoed t) runHeredoc).run.run (session.noted notes) =
      (.ok t, session.noted (notes ++ note)) := by
  obtain ⟨printer, hFind, hRun⟩ := hPrints
  have hDispatch := registry.run_dispatch (show registry.find (Word.plain "echo").text = .ok printer from
    hFind) [.plain t] (session.noted notes)
  rw [h.expand_eq, hRun] at hDispatch
  rw [registry.runBlockWith_of_oneCommand (Registry.oneCommand_echo h.reads)]
  change (registry.dispatch [.plain "echo", .plain t] none >>= _ : Action Text).run.run _ = _
  rw [Action.run_bind_ok hDispatch]
  rfl

end PrintsWhole

namespace Nesting

/-- A line that prints `deep` through a number of substitutions, each in the one before it. -/
def nested : Nat → Text
  | 0 => echoed "deep"
  | k + 1 => echoed (enclosed (nested k))

/-- What a nested line prints when a number of levels is taken down. -/
def remaining : (room : Nat) → Nat → Text
  | _, 0 => "deep"
  | 0, k + 1 => enclosed (nested k)
  | room + 1, k + 1 => remaining room k

theorem remaining_eq (room k : Nat) :
    remaining room k = if k ≤ room then ("deep" : Text) else enclosed (nested (k - room - 1)) := by
  induction room, k using remaining.induct with
  | case1 room => simp [remaining]
  | case2 k => simp [remaining]
  | case3 room k ih => simp [remaining, ih]

theorem balanced_nested (k : Nat) : Balanced (nested k) := by
  have hEcho : Balanced "echo " := .of_plain (by decide)
  induction k with
  | zero => exact hEcho.append (.of_plain (by decide))
  | succ k ih => exact hEcho.append (Substitution.balanced_enclosed ih)

def letters : Text := "echo dp$()"

/-- Nested lines use a few letters only, and no quotes among them. -/
theorem nested_subset (k : Nat) : nested k ⊆ letters := by
  induction k with
  | zero => decide
  | succ k ih =>
      have hFront : ("echo $(" : Text) ⊆ letters := by decide
      have hLast : [chr ')'] ⊆ letters := by decide
      have hText : nested (k + 1) = "echo $(" ++ (nested k ++ [chr ')']) := rfl
      rw [hText]
      exact List.append_subset.mpr ⟨hFront, List.append_subset.mpr ⟨ih, hLast⟩⟩

theorem printsWhole_deep : PrintsWhole "deep" where
  reads := ⟨rfl, by simp [Lexeme.OnlyWords], fun h => absurd h (by decide)⟩
  noGlob := rfl
  kept := rfl

/-- An enclosed line is printed whole: it is read as one word, blanks included. -/
theorem printsWhole_enclosed (k : Nat) : PrintsWhole (enclosed (nested k)) where
  reads := by
    refine ⟨Lexeme.read_enclosed (balanced_nested k), by simp [Lexeme.OnlyWords], fun hPossible => ?_⟩
    have hOneLine : chr '\n' ∉ echoed (enclosed (nested k)) := fun hMem =>
      absurd (nested_subset (k + 1) hMem) (by decide)
    simp [Heredoc.isPossible, hOneLine] at hPossible
  noGlob := by
    have hNone : hasGlob letters = false := by decide
    refine List.any_eq_false.mpr fun c hMem => List.any_eq_false.mp hNone c ?_
    exact nested_subset (k + 1) (List.mem_append_right _ hMem)
  kept := by
    have hLast : (enclosed (nested k)).getLast? = some (chr ')') := List.getLast?_concat
    rw [Text.dropFinal, hLast]
    rfl

theorem printsWhole_remaining (room k : Nat) : PrintsWhole (remaining room k) := by
  induction room, k using remaining.induct with
  | case1 room =>
      rw [remaining]
      exact printsWhole_deep
  | case2 k => exact printsWhole_enclosed k
  | case3 room k ih => exact ih

/-- A nested line has one substitution, which encloses the line of one level less. -/
theorem spans_nested (k : Nat) : Substitution.spans (nested (k + 1)) =
    ([⟨5, 5 + (enclosed (nested k)).length, nested k⟩], none) := by
  have hHead : (nested k).head? ≠ some (chr '(') := by
    have hFirst : (nested k).head? = some (chr 'e') := by cases k <;> rfl
    rw [hFirst]
    decide
  have hFront (rest : Text) : Substitution.spans (echoed rest) =
      Substitution.spansFrom 0 false false 5 rest := rfl
  have hSpan := Substitution.spansFrom_enclosed (balanced_nested k) hHead false 5 []
  rw [List.append_nil] at hSpan
  rw [nested, hFront, hSpan]
  rfl

/-- Splicing puts the output where the inner line stood. -/
theorem splice_nested (k : Nat) (output : Text) :
    Substitution.splice (nested (k + 1)) ⟨5, 5 + (enclosed (nested k)).length, nested k⟩ output =
      echoed output := by
  have hLength : (nested (k + 1)).length = 5 + (enclosed (nested k)).length := List.length_append
  rw [Substitution.splice, ← hLength, List.drop_length, List.append_nil]
  rfl

/-- What is said when a number of levels is taken down: that the next one is too deep, when there is
one, and then what each `echo` says. -/
def said (warning : Text) (note : List Text) : (room : Nat) → Nat → List Text
  | _, 0 => []
  | 0, _ + 1 => [warning]
  | room + 1, k + 1 => said warning note room k ++ note

/-- The warning is said if a level is left, and a note for each level that was taken down. -/
theorem said_eq (warning : Text) (note : List Text) (room k : Nat) : said warning note room k =
    (if k ≤ room then [] else [warning]) ++ (List.replicate (min k room) note).flatten := by
  induction room, k using said.induct with
  | case1 room => simp [said]
  | case2 k => simp [said]
  | case3 room k ih =>
      rw [said, ih, Nat.succ_min_succ, List.replicate_succ', List.flatten_concat, List.append_assoc]
      simp only [Nat.succ_eq_add_one, Nat.add_le_add_iff_right]

end Nesting

namespace Shell

open Nesting

/-- One level after the other is taken down, and what each of them prints is what the text below it
was expanded to. -/
theorem run_expand_nested (shell : Shell) {note : List Text} (hPrints : PrintsWords shell.registry note)
    (session : Session) (room k : Nat) {depth : Int} (hRoom : depth + room = shell.maxDepth + 1)
    (notes : List Text) : (shell.expand depth (nested k)).run.run (session.noted notes) =
      (.ok (echoed (remaining room k)), session.noted
        (notes ++ said (shell.depthWarning (shell.maxDepth + 1)) note room k)) := by
  induction room, k using remaining.induct generalizing depth notes with
  | case1 room =>
      rw [remaining, said, List.append_nil, shell.expand_of_no_occurrence depth (by decide)]
      rfl
  | case2 k =>
      obtain rfl : depth = shell.maxDepth + 1 := by simpa using hRoom
      rw [shell.expand_of_deep (by omega) (show Text.occursIn [chr '$', chr '('] (nested (k + 1)) = true from rfl)]
      rfl
  | case3 room k ih =>
      have hDepth : depth ≤ shell.maxDepth := by omega
      have hOutput : (shell.outputOf depth ⟨5, 5 + (enclosed (nested k)).length, nested k⟩).run.run
          (session.noted notes) = (.ok (remaining room k), session.noted
            (notes ++ said (shell.depthWarning (shell.maxDepth + 1)) note (room + 1) (k + 1))) := by
        rw [outputOf, Action.run_bind_ok (ih (by omega) notes),
          (printsWhole_remaining room k).run_capture hPrints, List.append_assoc]
        rfl
      rw [shell.expand_of_span hDepth (spans_nested k), Action.run_bind_ok hOutput]
      change (Except.ok (Substitution.splice _ _ _), _) = _
      rw [splice_nested]
      rfl

/-- A nested line with any `echo` that prints its words: what it gives, and what is said. -/
theorem run_execute_nested (shell : Shell) {note : List Text} (hPrints : PrintsWords shell.registry note)
    (n : Nat) {d : Nat} (hDepth : shell.maxDepth = d) (session : Session) :
    (shell.execute (nested n)).run.run session =
      (.ok (if n ≤ d + 1 then ("deep" : Text) else enclosed (nested (n - d - 2))),
        session.noted (session.warnings ++
          ((if n ≤ d + 1 then [] else [shell.depthWarning (d + 1)]) ++
            (List.replicate (min (n + 1) (d + 2)) note).flatten))) := by
  have hRoom : 0 + ((d + 1 : Nat) : Int) = shell.maxDepth + 1 := by omega
  have hExpand := shell.run_expand_nested hPrints session (d + 1) n hRoom session.warnings
  have hBlock := (printsWhole_remaining (d + 1) n).run_line hPrints session
    (session.warnings ++ said (shell.depthWarning (d + 1)) note (d + 1) n)
  rw [hDepth] at hExpand
  have hNotBlank : Text.allBlank (nested n) = false := by cases n <;> rfl
  have hNoLoop : ForLoop.ofLine? (nested n) = none := by cases n <;> exact Registry.ofLine?_echo _
  have hLeft : n - (d + 1) - 1 = n - d - 2 := by omega
  have hCount : min (n + 1) (d + 2) = min n (d + 1) + 1 := by omega
  rw [run_execute, shell.runExpanding_of_block hNotBlank hNoLoop]
  change settled ((shell.expand 0 (nested n) >>= _ : Action Text).run.run
    (session.noted session.warnings)) = _
  rw [Action.run_bind_ok hExpand, hBlock, remaining_eq, said_eq, hLeft, hCount, List.replicate_succ',
    List.flatten_concat, List.append_assoc, List.append_assoc]
  rfl

/-- Nested substitutions are taken down to the depth that is set and one level below it. What stands
deeper is printed as it was written: none of its commands is run, and no level around it expands it. -/
theorem execute_nested (n d : Nat) (session : Session) :
    ((Shell.mk Builtin.registry d).execute (nested n)).run.run session =
      (.ok (if n ≤ d + 1 then ("deep" : Text) else enclosed (nested (n - d - 2))),
        { session with
          exitCode := 0
          warnings := session.warnings ++
            if n ≤ d + 1 then [] else [(Shell.mk Builtin.registry d).depthWarning (d + 1)] }) ∧
    (Shell.mk Builtin.registry d).ran (nested n) session =
      (if n ≤ d + 1 then [] else [(Shell.mk Builtin.registry d).depthWarning (d + 1)]) ++
        List.replicate (min (n + 1) (d + 2)) ("echo" : Text) := by
  constructor
  · rw [run_execute_nested ⟨Builtin.registry, d⟩ printsWords_builtin n rfl,
      List.flatten_replicate_nil, List.append_nil]
    rfl
  · have hRun := run_execute_nested ⟨Builtin.registry.announcing, d⟩ printsWords_announcing n rfl
      { session with warnings := [] }
    rw [ran, hRun, List.flatten_replicate_singleton]
    rfl

end Shell

end TreeShell
