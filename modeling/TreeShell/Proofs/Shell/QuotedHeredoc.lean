import TreeShell.Builtin.All
import TreeShell.Proofs.Line.QuotedHeredoc
import TreeShell.Proofs.Shell.Expansion
import TreeShell.Proofs.Shell.Heredoc
import TreeShell.Proofs.Shell.Quoting
import TreeShell.Proofs.Shell.Sequence

/-! A body behind a quoted delimiter, as a command. It is handed over as it stands, and only
`cat` is run, unless a substitution in it is expanded. -/
namespace TreeShell

namespace QuotedHeredoc

theorem allBlank_text (d : QuotedHeredoc) : Text.allBlank d.text = false := by
  rw [text_eq, headerLine_chars]
  rfl

theorem ofLine?_text (d : QuotedHeredoc) : ForLoop.ofLine? d.text = none := by
  rw [text_eq, headerLine_chars]
  exact ForLoop.ofLine?_of_head (by decide) (by decide) _

/-- The block is taken for one with a heredoc. -/
theorem isPossible_text (d : QuotedHeredoc) : Heredoc.isPossible d.text = true := by
  have hOperator : Text.occursIn [chr '<', chr '<'] d.text = true := by
    rw [text_eq, headerLine_chars]
    rfl
  rw [Heredoc.isPossible, hOperator, text_eq]
  simp

end QuotedHeredoc

/-- With nothing to do, `cat` gives its input back. -/
theorem Builtin.run_cat (content : Text) : Builtin.cat.run [] (some content) = pure content := by
  have hRun : Builtin.cat.run [] (some content) = pure (content ++ []) := rfl
  rw [hRun, List.append_nil]

namespace Registry

/-- A block with a quoted delimiter around `cat` gives the command its body and goes on with
nothing. -/
theorem runBlockWith_quotedHeredoc (registry : Registry) (d : QuotedHeredoc)
    (execute : Text → Action Text) :
    registry.runBlockWith d.text (fun found =>
        registry.runHeredoc found (execute found.lead) (execute found.trail)) = (do
      let command ← Action.ofExcept (registry.find "cat")
      let output ← command.run [] (if command.acceptsInput then some d.content else none)
      Action.exit 0
      return output) := by
  have hRuns : registry.runHeredoc d.toHeredoc (execute d.toHeredoc.lead) (execute d.toHeredoc.trail) =
      registry.runWhole d.toHeredoc (execute d.toHeredoc.lead) (execute d.toHeredoc.trail) := by
    apply registry.runHeredoc_of_redirect
    · intro w hw
      rw [List.mem_singleton.mp hw]
      rfl
    · rfl
  rw [runBlockWith, if_pos d.isPossible_text, d.parse_text]
  change registry.runHeredoc d.toHeredoc _ _ = _
  rw [hRuns]
  have hDispatch : registry.runCommand d.toHeredoc.command d.toHeredoc.redirections
      (some d.toHeredoc.content) = (do
        let command ← Action.ofExcept (registry.find "cat")
        command.run [] (if command.acceptsInput then some d.content else none)) := by
    have hNone (v : Volume) : Wildcard.expand v none [] = [] := rfl
    change registry.dispatch [.plain "cat"] (some d.content) = _
    simp only [dispatch, hNone]
    rfl
  rw [runWhole, hDispatch]
  simp only [bind_assoc]
  rfl

end Registry

namespace Shell

/-- With no substitution to expand in its content, the block is one dispatch of `cat` on the
content. -/
theorem runExpanding_quotedHeredoc (shell : Shell) (d : QuotedHeredoc)
    (hLiteral : shell.maxDepth < 0 ∨ (Substitution.spans d.content).1 = []) :
    shell.runExpanding d.text = (do
      (shell.literalWarnings d.text).forM Action.warn
      let command ← Action.ofExcept (shell.registry.find "cat")
      let output ← command.run [] (if command.acceptsInput then some d.content else none)
      Action.exit 0
      return output) := by
  have hSpans : shell.maxDepth < 0 ∨ (Substitution.spans d.text).1 = [] := by
    rw [d.spans_text]
    exact hLiteral.imp_right fun h => by rw [h, List.map_nil]
  rw [shell.runExpanding_of_block d.allBlank_text d.ofLine?_text, shell.expand_of_literal hSpans]
  simp only [bind_assoc, pure_bind]
  rw [Registry.runBlockWith_quotedHeredoc]

/-- Behind a quoted delimiter every body in which no substitution is expanded is handed to
`cat` as it stands, whatever quotes and operators are in it. Nothing else is run, so that the
volume and the host stay as they are. The substitutions of the lines are those of the body. -/
theorem execute_quotedHeredoc (shell : Shell) (d : QuotedHeredoc) (session : Session)
    {command : Command} (hCommand : shell.registry.find "cat" = .ok command) :
    (Substitution.spans d.text).1 =
      (Substitution.spans d.content).1.map (·.moved (d.headerLine.length + 1)) ∧
    (shell.maxDepth < 0 ∨ (Substitution.spans d.content).1 = [] →
      let start := { session with
        exitCode := 0, warnings := session.warnings ++ shell.literalWarnings d.text }
      (shell.execute d.text).run.run session = conclude
        ((command.run [] (if command.acceptsInput then some d.content else none)).run.run start) ∧
      (command = Builtin.cat → (shell.execute d.text).run.run session = (.ok d.content, start))) := by
  refine ⟨d.spans_text, ?_⟩
  intro hLiteral start
  have hOnce := shell.run_execute_of_once (shell.runExpanding_quotedHeredoc d hLiteral) session
  rw [hCommand] at hOnce
  refine ⟨hOnce, ?_⟩
  rintro rfl
  rw [hOnce]
  change conclude ((Builtin.cat.run [] (some d.content)).run.run start) = _
  rw [Builtin.run_cat]
  rfl

/-- A body that looks like code in every line. -/
def lookalike : QuotedHeredoc where
  delimiter := "EOF"
  lines := ["'$(mkdir /x)'; rm -r / | cat >f", "EOFx && \"", "<<EOF"]
  letters := List.all_eq_true.mp (by decide)
  oneLine := by decide
  stays := by decide

theorem execute_quotedHeredoc_lookalike :
    Builtin.registry.find "cat" = .ok Builtin.cat ∧ (Substitution.spans lookalike.content).1 = [] ∧
    ((Shell.mk Builtin.registry defaultMaxDepth).execute lookalike.text).run.run Registry.untouched =
      (.ok lookalike.content, Registry.untouched) :=
  have hSpans : (Substitution.spans lookalike.content).1 = [] := by decide
  have hFind : Builtin.registry.find "cat" = .ok Builtin.cat := rfl
  have hRun := (execute_quotedHeredoc ⟨Builtin.registry, defaultMaxDepth⟩ lookalike
    Registry.untouched hFind).2 (Or.inr hSpans)
  ⟨hFind, hSpans, hRun.2 rfl⟩

/-- A body that makes a directory. -/
def making : QuotedHeredoc where
  delimiter := "EOF"
  lines := ["$(mkdir /x)"]
  letters := List.all_eq_true.mp (by decide)
  oneLine := by decide
  stays := by decide

/-- The same, when the directory is made. -/
def made : QuotedHeredoc where
  delimiter := "EOF"
  lines := [[]]
  letters := List.all_eq_true.mp (by decide)
  oneLine := by decide
  stays := by decide

/-- In this body the substitution is expanded before the heredoc is found: the delimiter does not
protect it. -/
theorem expand_making (shell : Shell) (hDepth : 0 ≤ shell.maxDepth) :
    shell.expand 0 making.text = (do
      let output ← shell.registry.capture "mkdir /x"
      return Substitution.splice making.text ⟨12, 23, "mkdir /x"⟩ output) := by
  have hSpans : Substitution.spans making.text = ([⟨12, 23, "mkdir /x"⟩], none) := by decide
  rw [shell.expand_of_span hDepth hSpans, shell.outputOf_of_no_occurrence 0 (by decide)]

theorem oneCommand_mkdir : OneCommand "mkdir /x" [.plain "mkdir", .plain "/x"] :=
  .of_segments rfl (by decide)

/-- The command in the body is run. -/
theorem run_capture_mkdir : ∃ later, (Builtin.registry.capture "mkdir /x").run.run Registry.untouched =
    (.ok [], later) ∧ later.volume.resolve? "/x" ≠ none := by
  have hFind : Builtin.registry.find "mkdir" = .ok Builtin.mkdir := rfl
  have hCapture := Builtin.registry.run_capture oneCommand_mkdir hFind
    (show (Builtin.mkdir.run [.plain "/x"] none).run.run Registry.untouched = (.ok [], _) from rfl)
  exact ⟨_, hCapture, by decide⟩

/-- A body is not always handed over as it stands: the command in this one makes a directory,
and its output, which is empty, is what `cat` is given. -/
theorem exists_expanded_body :
    (¬ ∀ (d : QuotedHeredoc) (session : Session),
      let run := ((Shell.mk Builtin.registry defaultMaxDepth).execute d.text).run.run session
      run.1 = .ok d.content ∧ run.2.volume = session.volume) ∧
    ∃ later, ((Shell.mk Builtin.registry defaultMaxDepth).execute making.text).run.run
      Registry.untouched = (.ok [], later) ∧ later.volume.resolve? "/x" ≠ none := by
  have hRun : ∃ later, ((Shell.mk Builtin.registry defaultMaxDepth).execute making.text).run.run
      Registry.untouched = (.ok [], later) ∧ later.volume.resolve? "/x" ≠ none := by
    obtain ⟨later, hCapture, hMade⟩ := run_capture_mkdir
    refine ⟨{ later with exitCode := 0 }, ?_, hMade⟩
    have hBlock : Substitution.splice making.text ⟨12, 23, "mkdir /x"⟩ [] = made.text := by decide
    have hExpand := expand_making ⟨Builtin.registry, defaultMaxDepth⟩ (by decide)
    rw [run_execute, runExpanding_of_block _ making.allBlank_text making.ofLine?_text, hExpand]
    simp only [bind_assoc, pure_bind]
    change settled ((Builtin.registry.capture "mkdir /x" >>= _ : Action Text).run.run
      Registry.untouched) = _
    rw [Action.run_bind_ok hCapture, hBlock, Registry.runBlockWith_quotedHeredoc]
    rfl
  refine ⟨?_, hRun⟩
  intro h
  obtain ⟨later, hOutput, _⟩ := hRun
  have hSame := (h making Registry.untouched).1
  rw [hOutput] at hSame
  cases hSame

end Shell

end TreeShell
