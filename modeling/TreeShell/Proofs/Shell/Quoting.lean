import TreeShell.Proofs.Line.Spelling
import TreeShell.Proofs.Shell.Termination

/-! Lines that are one command, and quoted words as a command. A line of quoted words runs the
command that goes by the first of them, once and on the others as they are. Nothing of a line
takes part in this but the words. -/
namespace TreeShell

/-- No quoted word is taken for a pattern. -/
theorem Wildcard.expandFrom_quoted (v : Volume) (start : Option Text) (keep : Bool)
    (texts : List Text) :
    expandFrom v start keep (texts.map Word.quoted) = texts.map Word.quoted := by
  induction texts generalizing keep with
  | nil => rfl
  | cons t texts ih =>
      have hPlain : ((Word.quoted t).literal || !hasGlob (Word.quoted t).text) = true := by
        cases hGlob : hasGlob t <;> simp [Word.quoted, hGlob]
      rw [List.map_cons, expandFrom, ih, ih, if_pos hPlain]
      split
      · rfl
      · split <;> rfl

/-- A line that is one command: no loop, heredoc or operator stands in it. -/
structure OneCommand (line : Text) (words : List Word) : Prop where
  notBlank : Text.allBlank line = false
  noLoop : ForLoop.ofLine? line = none
  noHeredoc : Heredoc.isPossible line = true → Heredoc.parse line = .ok none
  segments : Segment.ofLine line = .ok [⟨.close, words, none⟩]
  plain : ∀ w ∈ words, w.operator? = none

theorem OneCommand.of_segments {line : Text} {words : List Word}
    (hSegments : Segment.ofLine line = .ok [⟨.close, words, none⟩])
    (h : Text.allBlank line = false ∧ ForLoop.ofLine? line = none ∧ Heredoc.isPossible line = false ∧
      ∀ w ∈ words, w.operator? = none) : OneCommand line words where
  notBlank := h.1
  noLoop := h.2.1
  noHeredoc hPossible := by rw [h.2.2.1] at hPossible; cases hPossible
  segments := hSegments
  plain := h.2.2.2

namespace Registry

/-- Quoted words go to the command as they are: no wildcard is expanded in them. -/
theorem dispatch_quoted (registry : Registry) (name : Text) (texts : List Text) :
    registry.dispatch (Word.quoted name :: texts.map Word.quoted) none =
      (Action.ofExcept (registry.find name) >>= fun command =>
        command.run (texts.map Word.quoted) none) := by
  simp only [dispatch, Wildcard.expand, Wildcard.expandFrom_quoted, ite_self]
  rfl

/-- Words among which no operator stands are one command. -/
theorem runSegments_of_plain (registry : Registry) {words : List Word}
    (hWords : ∀ w ∈ words, w.operator? = none) :
    registry.runSegments [⟨.close, words, none⟩] = (do
      let output ← registry.dispatch words none
      Action.exit 0
      return output) := by
  have hTaken : Action.ofExcept (takeRedirections words) = pure (words, []) := by
    rw [takeRedirections_of_plain hWords]
    rfl
  have hCommand : registry.runCommand words [] none = registry.dispatch words none := rfl
  simp only [runSegments, hTaken, pure_bind, hCommand]

theorem runBlockWith_of_oneCommand (registry : Registry) {line : Text} {words : List Word}
    (h : OneCommand line words) (runHeredoc : Heredoc → Action Text) :
    registry.runBlockWith line runHeredoc = (do
      let output ← registry.dispatch words none
      Action.exit 0
      return output) := by
  rw [runBlockWith_of_segments _ h.noHeredoc h.segments, runSegments_of_plain _ h.plain]

/-- A line of one command is one dispatch, after which the exit code is zero. -/
theorem runPlain_of_oneCommand (registry : Registry) {line : Text} {words : List Word}
    (h : OneCommand line words) : registry.runPlain line = (do
      let output ← registry.dispatch words none
      Action.exit 0
      return output) := by
  rw [runPlain_of_block _ h.notBlank h.noLoop]
  exact registry.runBlockWith_of_oneCommand h _

/-- A command is looked up and given its words, and the input if it takes one. -/
theorem run_dispatch_input (registry : Registry) {name : Word} {command : Command}
    (hFind : registry.find name.text = .ok command) (words : List Word) (input : Option Text)
    (session : Session) :
    (registry.dispatch (name :: words) input).run.run session =
      (command.run (Wildcard.expand session.volume none words)
        (if command.acceptsInput then input else none)).run.run session := by
  simp only [dispatch, hFind, Action.ofExcept, pure_bind]
  rw [Action.run_bind_ok (Action.run_volume session)]

theorem run_dispatch (registry : Registry) {name : Word} {command : Command}
    (hFind : registry.find name.text = .ok command) (words : List Word) (session : Session) :
    (registry.dispatch (name :: words) none).run.run session =
      (command.run (Wildcard.expand session.volume none words) none).run.run session := by
  rw [registry.run_dispatch_input hFind, ite_self]

/-- Quoted words are handed to a command as they are. -/
theorem run_dispatch_quoted (registry : Registry) {name : Text} {command : Command}
    (hFind : registry.find name = .ok command) (texts : List Text) (session : Session) :
    (registry.dispatch (Word.quoted name :: texts.map Word.quoted) none).run.run session =
      (command.run (texts.map Word.quoted) none).run.run session := by
  rw [dispatch_quoted, hFind]
  rfl

/-- What a command that succeeds gives is captured without its last end of line. -/
theorem run_capture (registry : Registry) {line : Text} {name : Word} {words : List Word}
    (h : OneCommand line (name :: words)) {command : Command}
    (hFind : registry.find name.text = .ok command) {output : Text} {session later : Session}
    (hRun : (command.run (Wildcard.expand session.volume none words) none).run.run session =
      (.ok output, later)) :
    (registry.capture line).run.run session =
      (.ok (Text.dropFinal (chr '\n') output), { later with exitCode := 0 }) := by
  have hPlain : (registry.runPlain line).observe.run.run session =
      (.ok (.ok output), { later with exitCode := 0 }) := by
    rw [Action.run_observe, registry.runPlain_of_oneCommand h,
      Action.run_bind_ok ((registry.run_dispatch hFind words session).trans hRun)]
    rfl
  rw [capture, Action.run_bind_ok hPlain]
  rfl

end Registry

namespace Shell

/-- What a shell says that expands no substitutions at all when a line may hold one. -/
def depthWarnings (shell : Shell) (line : Text) : List Text :=
  if Text.occursIn [chr '$', chr '('] line = true ∧ 0 > shell.maxDepth then
    ["Substitution depth " ++ Text.ofInt 0 ++ " exceeds " ++ Text.ofInt shell.maxDepth ++
      ", leaving text unexpanded"]
  else []

/-- What a shell says about a line in which it replaces nothing. -/
def literalWarnings (shell : Shell) (line : Text) : List Text :=
  shell.depthWarnings line ++
    if Text.occursIn [chr '$', chr '('] line = true ∧ 0 ≤ shell.maxDepth then Substitution.warnings line else []

/-- A line stays as it is when nothing in it is expanded. -/
theorem expand_of_literal (shell : Shell) {line : Text}
    (h : shell.maxDepth < 0 ∨ (Substitution.spans line).1 = []) :
    shell.expand 0 line = (do
      (shell.literalWarnings line).forM Action.warn
      return line) := by
  rw [expand, literalWarnings, depthWarnings]
  by_cases hOccurs : Text.occursIn [chr '$', chr '('] line = true
  · by_cases hDepth : shell.maxDepth < 0
    · have hNo : ¬ 0 ≤ shell.maxDepth := by omega
      simp [hOccurs, hDepth, hNo]
    · have hSpans := h.resolve_left hDepth
      have hYes : 0 ≤ shell.maxDepth := by omega
      generalize (Substitution.spans line).1 = spans at hSpans
      subst hSpans
      simp [hOccurs, hDepth, hYes]
  · simp [hOccurs]

/-- A line without a substitution, and without the beginning of one, stays as it is. -/
theorem expand_of_spans (shell : Shell) {line : Text} (h : Substitution.spans line = ([], none)) :
    shell.expand 0 line = (do
      (shell.depthWarnings line).forM Action.warn
      return line) := by
  have hWarnings : Substitution.warnings line = [] := by
    rw [Substitution.warnings, h]
  rw [expand_of_literal shell (Or.inr (by rw [h])), literalWarnings, hWarnings, ite_self,
    List.append_nil]

/-- A line that is read as its words runs the segments that they make up. -/
theorem runExpanding_of_straight (shell : Shell) {line : Text} {words : List Word}
    (h : ReadsStraight line words) (hBlank : Text.allBlank line = false)
    (hLoop : ForLoop.ofLine? line = none) :
    shell.runExpanding line = (do
      (shell.depthWarnings line).forM Action.warn
      shell.registry.runSegments (Segment.group words)) := by
  rw [shell.runExpanding_of_block hBlank hLoop, shell.expand_of_spans h.noSpans]
  simp only [bind_assoc, pure_bind,
    shell.registry.runBlockWith_of_segments (fun _ => h.noHeredoc) h.segments_eq]

/-- A line of quoted words is one dispatch of its first word, with the others as arguments and
without any input. -/
theorem runExpanding_quotedLine (shell : Shell) (style : QuoteStyle) (name : Text)
    (args : List (QuoteStyle × Text)) :
    shell.runExpanding (quotedLine ((style, name) :: args)) = (do
      (shell.depthWarnings (quotedLine ((style, name) :: args))).forM Action.warn
      let command ← Action.ofExcept (shell.registry.find name)
      let output ← command.run (args.map fun arg => Word.quoted arg.2) none
      Action.exit 0
      return output) := by
  have hSome : (style, name) :: args ≠ [] := List.cons_ne_nil _ _
  have hWords : ((style, name) :: args).map (fun word => Word.quoted word.2) =
      Word.quoted name :: (args.map Prod.snd).map Word.quoted := by simp
  have hPlain : ∀ w ∈ Word.quoted name :: (args.map Prod.snd).map Word.quoted,
      w.operator? = none := by
    simp only [← List.map_cons, List.forall_mem_map]
    exact fun t _ => Word.operator?_quoted t
  have hArgs : (args.map Prod.snd).map Word.quoted = args.map fun arg => Word.quoted arg.2 := by simp
  rw [shell.runExpanding_of_straight (readsStraight_quotedLine hSome) (allBlank_quotedLine hSome)
    (ForLoop.ofLine?_quotedLine hSome), hWords, Segment.group_of_plain hPlain (List.cons_ne_nil _ _),
    Registry.runSegments_of_plain _ hPlain, Registry.dispatch_quoted, hArgs]
  simp only [bind_assoc]

/-- The end of a line: the exit code says whether it failed. -/
def conclude : Except Fault Text × Session → Except Fault Text × Session
  | (.ok output, finish) => (.ok output, { finish with exitCode := 0 })
  | (.error fault, finish) => (.error fault, { finish with exitCode := 1 })

/-- A line that fails leaves an exit code of one. -/
def settled : Except Fault Text × Session → Except Fault Text × Session
  | (.ok output, later) => (.ok output, later)
  | (.error fault, later) => (.error fault, { later with exitCode := 1 })

/-- Executing starts with a cleared exit code and settles what comes of the line. -/
theorem run_execute (shell : Shell) (line : Text) (session : Session) :
    (shell.execute line).run.run session =
      settled ((shell.runExpanding line).run.run { session with exitCode := 0 }) := by
  have hExit : (Action.exit 0).run.run session = (.ok (), { session with exitCode := 0 }) := rfl
  rw [execute, Action.run_bind_ok hExit]
  change (tryCatch _ _ : Action Text).run.run { session with exitCode := 0 } = _
  rw [Action.run_tryCatch]
  rcases (shell.runExpanding line).run.run { session with exitCode := 0 } with ⟨_ | _, _⟩ <;> rfl

/-- A line that is read straight is executed as its segments. -/
theorem run_execute_of_straight (shell : Shell) {line : Text} {words : List Word}
    (h : ReadsStraight line words) (hBlank : Text.allBlank line = false)
    (hLoop : ForLoop.ofLine? line = none) (session : Session) :
    (shell.execute line).run.run session =
      settled ((shell.registry.runSegments (Segment.group words)).run.run { session with
        exitCode := 0, warnings := session.warnings ++ shell.depthWarnings line }) := by
  have hWarn := Action.run_warn (shell.depthWarnings line) { session with exitCode := 0 }
  rw [run_execute, shell.runExpanding_of_straight h hBlank hLoop, Action.run_bind_ok hWarn]

/-- A line that runs one command, after some warnings, looks the command up once. -/
theorem run_execute_of_once (shell : Shell) {line name : Text} {words : List Word}
    {stdin : Command → Option Text} {warnings : List Text}
    (h : shell.runExpanding line = do
      warnings.forM Action.warn
      let command ← Action.ofExcept (shell.registry.find name)
      let output ← command.run words (stdin command)
      Action.exit 0
      return output) (session : Session) :
    (shell.execute line).run.run session =
      let start := { session with exitCode := 0, warnings := session.warnings ++ warnings }
      match shell.registry.find name with
      | .error fault => (.error fault, { start with exitCode := 1 })
      | .ok command =>
        conclude ((command.run words (stdin command)).run.run start) := by
  have hWarn := Action.run_warn warnings { session with exitCode := 0 }
  generalize ({ session with exitCode := 0, warnings := session.warnings ++ warnings } : Session) =
    start at hWarn
  rw [run_execute, h, Action.run_bind_ok hWarn]
  cases shell.registry.find name with
  | error fault => rfl
  | ok command =>
      simp only [Action.ofExcept, pure_bind, Action.run_bind]
      generalize (command.run words (stdin command)).run.run start = outcome
      obtain ⟨fault | output, finish⟩ := outcome
      · rfl
      · rfl

/-- A line of quoted words looks its first word up once and hands the others over as they
are, with no input. Nothing else happens, whatever the words, the session and the commands. -/
theorem execute_quotedLine (shell : Shell) (style : QuoteStyle) (name : Text)
    (args : List (QuoteStyle × Text)) (session : Session) :
    (args.map fun arg => Word.quoted arg.2).map Word.text = args.map Prod.snd ∧
    (shell.execute (quotedLine ((style, name) :: args))).run.run session =
      let start := { session with
        exitCode := 0
        warnings := session.warnings ++ shell.depthWarnings (quotedLine ((style, name) :: args)) }
      match shell.registry.lookup name with
      | none => (.error (.unknownCommand name), { start with exitCode := 1 })
      | some command =>
        match (command.run (args.map fun arg => Word.quoted arg.2) none).run.run start with
        | (.ok output, finish) => (.ok output, { finish with exitCode := 0 })
        | (.error fault, finish) => (.error fault, { finish with exitCode := 1 }) := by
  refine ⟨by simp [Word.quoted], ?_⟩
  rw [shell.run_execute_of_once (shell.runExpanding_quotedLine style name args), Registry.find]
  cases shell.registry.lookup name with
  | none => rfl
  | some command => rfl

end Shell

end TreeShell
