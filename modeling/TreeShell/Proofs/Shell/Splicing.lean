import TreeShell.Proofs.Line.Enclosed
import TreeShell.Proofs.Shell.Expansion
import TreeShell.Proofs.Shell.Rejection

/-! A line with its substitutions taken out and texts put in. The places stand in the line one behind the
other, each around its command, and what comes out when texts are put in from the last place to the first
is the line between the places with the texts in between, whatever the texts are. A shell that expands a
line always ends with such a text. The main statement is `spans_spliced`. -/
namespace TreeShell

/-- Total actions give one result for each item, whatever the session. -/
theorem Action.Total.run_mapM {α β : Type} {act : α → Action β} (h : ∀ a, Total (act a)) (items : List α)
    (session : Session) : ∃ found later, (items.mapM act).run.run session = (.ok found, later) ∧
      found.length = items.length := by
  induction items generalizing session with
  | nil => exact ⟨[], session, rfl, rfl⟩
  | cons item items ih =>
      obtain ⟨b, middle, hItem⟩ := (h item).run session
      obtain ⟨found, later, hItems, hLength⟩ := ih middle
      refine ⟨b :: found, later, ?_, congrArg (· + 1) hLength⟩
      rw [List.mapM_cons, run_bind_ok hItem, run_bind_ok hItems]
      rfl

namespace Shell

open Substitution (Span spans spliceOne filled)

theorem total_outputOf (shell : Shell) (depth : Int) (span : Span) :
    Action.Total (shell.outputOf depth span) :=
  .bind (shell.total_expand _ _) fun _ => shell.registry.total_capture _

/-- A line that is not nested too deep is expanded to its text with an output in the place of every
span. -/
theorem exists_run_expand (shell : Shell) {depth : Int} (hDepth : depth ≤ shell.maxDepth) (line : Text)
    (session : Session) : ∃ outputs later, outputs.length = (spans line).1.length ∧
      (shell.expand depth line).run.run session =
        (.ok (filled line ((spans line).1.zip outputs)), later) := by
  obtain ⟨found, later, hFound, hLength⟩ := Action.Total.run_mapM (shell.total_outputOf depth)
    (spans line).1.reverse
    { session with warnings := session.warnings ++ Substitution.warnings line }
  refine ⟨found.reverse, later, by simpa using hLength, ?_⟩
  rw [shell.expand_eq_expandBackwards hDepth, expandBackwards,
    Action.run_bind_ok (Action.run_warn _ session), Action.run_bind_ok hFound]
  rfl

/-- The places of substitutions stand in their line one behind the other; each holds its command between
`$(` and the parenthesis that closes it, and no command begins with a parenthesis. When texts are put into
them from the last one to the first, what comes out is the line up to the first place, its text, the line
up to the next place, and so on to the end of the line. This is how a shell puts outputs into a line. -/
theorem spans_spliced (line : Text) :
    (∀ span ∈ (spans line).1, span.StandsIn line) ∧
    (spans line).1.IsChain (fun span next => span.stop ≤ next.start) ∧
    (∀ outputs, outputs.length = (spans line).1.length →
      ((spans line).1.zip outputs).foldr spliceOne line = filled line ((spans line).1.zip outputs)) ∧
    ∀ (shell : Shell) (depth : Int), depth ≤ shell.maxDepth → ∀ session, ∃ outputs later,
      outputs.length = (spans line).1.length ∧ (shell.expand depth line).run.run session =
        (.ok (((spans line).1.zip outputs).foldr spliceOne line), later) := by
  refine ⟨Substitution.standsIn_of_mem_spans line, (Substitution.inOrder_spans line).isChain,
    fun outputs _ => Substitution.foldr_spliceOne_spans line outputs, fun shell depth hDepth session => ?_⟩
  obtain ⟨outputs, later, hLength, hRun⟩ := shell.exists_run_expand hDepth line session
  exact ⟨outputs, later, hLength, by rw [Substitution.foldr_spliceOne_spans, hRun]⟩

/-- A parenthesis that is quoted closes nothing, and a substitution that is never closed stays. -/
theorem spans_spliced_quoted :
    let line : Text := "p$(echo ')')q\"$(ls)\"$("
    let shell := Shell.mk Builtin.registry defaultMaxDepth
    spans line = ([⟨1, 12, "echo ')'"⟩, ⟨14, 19, "ls"⟩], some 20) ∧
    Span.StandsIn line ⟨1, 12, "echo ')'"⟩ ∧
    (spans line).1.IsChain (fun span next => span.stop ≤ next.start) ∧
    filled line [(⟨1, 12, "echo ')'"⟩, "x"), (⟨14, 19, "ls"⟩, [])] = "pxq\"\"$(" ∧
    [(⟨1, 12, "echo ')'"⟩, ("x" : Text)), (⟨14, 19, "ls"⟩, [])].foldr spliceOne line = "pxq\"\"$(" ∧
    ∀ session, ∃ outputs later, outputs.length = 2 ∧ (shell.expand 0 line).run.run session =
      (.ok (((spans line).1.zip outputs).foldr spliceOne line), later) := by
  intro line shell
  have hSpans : spans line = ([⟨1, 12, "echo ')'"⟩, ⟨14, 19, "ls"⟩], some 20) := by decide
  obtain ⟨hStands, hOrder, hSpliced, hExpand⟩ := spans_spliced line
  have hFilled : filled line [(⟨1, 12, "echo ')'"⟩, "x"), (⟨14, 19, "ls"⟩, [])] = "pxq\"\"$(" := by decide
  refine ⟨hSpans, hStands _ (by rw [hSpans]; exact List.mem_cons_self ..), hOrder, hFilled, ?_, ?_⟩
  · rw [← hFilled]
    have hBoth := hSpliced ["x", []] (by rw [hSpans]; rfl)
    rw [hSpans] at hBoth
    exact hBoth
  · have hRuns := hExpand shell 0 (by decide)
    rw [hSpans] at hRuns ⊢
    exact hRuns

end Shell

end TreeShell
