import TreeShell.Builtin.All
import TreeShell.Proofs.Builtin.Basic
import TreeShell.Proofs.Line.Moved
import TreeShell.Proofs.Line.Operator
import TreeShell.Proofs.Shell.Expansion
import TreeShell.Proofs.Shell.Quoting
import TreeShell.Proofs.Shell.Sequence

/-! The output of a command in a line. It takes the place of the substitution before the line
is read, so that it is read as if it had been typed there. An output that reads as words makes
no command; operators, ends of line and heredocs in it do. -/
namespace TreeShell

def echoed (t : Text) : Text := "echo " ++ t

theorem echoed_chars (t : Text) : echoed t = chr 'e' :: chr 'c' :: chr 'h' :: chr 'o' :: chr ' ' :: t := rfl

/-- A text behind `echo` is read as it is by itself. -/
theorem Lexeme.read_echo {t : Text} {lexemes : List Lexeme} (h : read t = .ok lexemes) :
    read (echoed t) = .ok (.word (.plain "echo") 0 false :: lexemes.map (moved 5)) := by
  have hMoved := readFrom_moved 5 h
  rw [echoed_chars, read,
    readFrom_of_step (show step .between 0 (chr 'e') _ = ([], .inWord ⟨0, [chr 'e'], false⟩) from rfl),
    readFrom_of_step (show step _ _ (chr 'c') _ = ([], .inWord ⟨0, [chr 'c', chr 'e'], false⟩) from rfl),
    readFrom_of_step (show step _ _ (chr 'h') _ = ([], .inWord ⟨0, [chr 'h', chr 'c', chr 'e'], false⟩) from rfl),
    readFrom_of_step (show step _ _ (chr 'o') _ = ([], .inWord ⟨0, [chr 'o', chr 'h', chr 'c', chr 'e'], false⟩) from rfl)]
  exact readFrom_cons_eq_ok.mpr ⟨_, hMoved, rfl⟩

/-- A text that makes no command behind `echo`: it reads as words, and no heredoc is found when
its lines are read one by one. -/
def ReadsAsWords (t : Text) (lexemes : List Lexeme) : Prop :=
  Lexeme.read t = .ok lexemes ∧ Lexeme.OnlyWords lexemes ∧
    (Heredoc.isPossible (echoed t) = true → Heredoc.parse (echoed t) = .ok none)

namespace ReadsAsWords

variable {t : Text} {lexemes : List Lexeme}

theorem operator?_eq_none (h : ReadsAsWords t lexemes) :
    ∀ w ∈ Word.plain "echo" :: lexemes.map Lexeme.toWord, w.operator? = none := by
  intro w hMem
  rcases List.mem_cons.mp hMem with rfl | hMem
  · decide
  · obtain ⟨lexeme, hLexeme, rfl⟩ := List.mem_map.mp hMem
    obtain ⟨w, position, quoted, rfl⟩ := h.2.1 lexeme hLexeme
    have hPlain : Lexeme.WordsPlain lexemes := Lexeme.wordsPlain_readFrom (by exact trivial) h.1
    exact hPlain w position quoted hLexeme

/-- All of the text is handed to `echo`. -/
theorem segments (h : ReadsAsWords t lexemes) : Segment.ofLine (echoed t) =
    .ok [⟨.close, .plain "echo" :: lexemes.map Lexeme.toWord, none⟩] := by
  have hWords : (Lexeme.word (.plain "echo") 0 false :: lexemes.map (Lexeme.moved 5)).map
      Lexeme.toWord = .plain "echo" :: lexemes.map Lexeme.toWord := by
    have hSame : Lexeme.toWord ∘ Lexeme.moved 5 = Lexeme.toWord := funext (Lexeme.toWord_moved 5)
    rw [List.map_cons, List.map_map, hSame]
    rfl
  have hGroup := Segment.group_of_plain h.operator?_eq_none (List.cons_ne_nil _ _)
  rw [Segment.ofLine, lineWords, Lexeme.read_echo h.1]
  change Except.ok (Segment.group (List.map _ _)) = _
  rw [hWords, hGroup]

end ReadsAsWords

namespace Registry

theorem allBlank_echo (t : Text) : Text.allBlank (echoed t) = false := rfl

theorem ofLine?_echo (t : Text) : ForLoop.ofLine? (echoed t) = none :=
  ForLoop.ofLine?_of_head (show Text.isBlank (chr 'e') = false by decide) (by decide) _

/-- Behind `echo` words make no command. -/
theorem oneCommand_echo {t : Text} {lexemes : List Lexeme} (h : ReadsAsWords t lexemes) :
    OneCommand (echoed t) (.plain "echo" :: lexemes.map Lexeme.toWord) where
  notBlank := allBlank_echo t
  noLoop := ofLine?_echo t
  noHeredoc := h.2.2
  segments := h.segments
  plain := h.operator?_eq_none

theorem oneCommand_cat : OneCommand "cat /f" [.plain "cat", .plain "/f"] :=
  .of_segments rfl (by decide)

end Registry

namespace Shell

/-- The line that prints the content of a file. -/
def echoFile : Text := "echo $(cat /f)"

/-- Expanding the line captures the file and splices what was printed. -/
theorem expand_echoFile (shell : Shell) (hDepth : 0 ≤ shell.maxDepth) :
    shell.expand 0 echoFile = (do
      let output ← shell.registry.capture "cat /f"
      return echoed output) := by
  have hSpans : Substitution.spans echoFile = ([⟨5, 14, "cat /f"⟩], none) := by decide
  have hSplice (output : Text) :
      Substitution.splice echoFile ⟨5, 14, "cat /f"⟩ output = echoed output := by
    have hText : Substitution.splice echoFile ⟨5, 14, "cat /f"⟩ output = echoed (output ++ []) := rfl
    rw [hText, List.append_nil]
  rw [shell.expand_of_span hDepth hSpans, shell.outputOf_of_no_occurrence 0 (by decide)]
  simp only [hSplice]

/-- However the output reads, the line runs as if it had been typed behind `echo`, and nothing
in it is expanded again. -/
theorem run_echoFile (shell : Shell) (hDepth : 0 ≤ shell.maxDepth) (session : Session)
    {reader : Command} {content : Text} {later : Session} (hReader : shell.registry.find "cat" = .ok reader)
    (hRead : (reader.run [.plain "/f"] none).run.run { session with exitCode := 0 } =
      (.ok content, later)) :
    (shell.execute echoFile).run.run session = settled ((shell.registry.runPlain
      (echoed (Text.dropFinal (chr '\n') content))).run.run { later with exitCode := 0 }) := by
  have hCapture := shell.registry.run_capture Registry.oneCommand_cat hReader hRead
  have hLine := shell.registry.runPlain_of_block
    (Registry.allBlank_echo (Text.dropFinal (chr '\n') content)) (Registry.ofLine?_echo _)
  rw [run_execute, runExpanding_of_block _ (by decide) (by decide), shell.expand_echoFile hDepth]
  simp only [bind_assoc, pure_bind]
  rw [Action.run_bind_ok hCapture, hLine]

/-- An output that reads as words is handed to `echo`, and no other command is run. -/
theorem run_echoFile_words (shell : Shell) (hDepth : 0 ≤ shell.maxDepth) (session : Session)
    {reader printer : Command} {content : Text} {later : Session}
    (hReader : shell.registry.find "cat" = .ok reader)
    (hPrinter : shell.registry.find "echo" = .ok printer)
    (hRead : (reader.run [.plain "/f"] none).run.run { session with exitCode := 0 } =
      (.ok content, later)) {lexemes : List Lexeme}
    (hWords : ReadsAsWords (Text.dropFinal (chr '\n') content) lexemes) :
    (shell.execute echoFile).run.run session = conclude ((printer.run (Wildcard.expand later.volume none
      (lexemes.map Lexeme.toWord)) none).run.run { later with exitCode := 0 }) := by
  have hDispatch := shell.registry.run_dispatch (show shell.registry.find (Word.plain "echo").text =
    .ok printer from hPrinter) (lexemes.map Lexeme.toWord) { later with exitCode := 0 }
  rw [shell.run_echoFile hDepth session hReader hRead, shell.registry.runPlain_of_oneCommand (Registry.oneCommand_echo hWords), Action.run_bind,
    hDispatch]
  rcases (printer.run _ none).run.run { later with exitCode := 0 } with ⟨_ | _, _⟩
  · rfl
  · rfl

end Shell

/-- A command that gives its name as a warning before it does its work. -/
def Command.announced (command : Command) (name : Text) : Command :=
  { command with
    run := fun words stdin => do
      Action.warn name
      command.run words stdin }

namespace Registry

/-- The registry with all commands announced by the names they go by. -/
def announcing (registry : Registry) : Registry :=
  registry.map fun (name, command) => (name, command.announced name)

theorem lookup_announcing (registry : Registry) (name : Text) :
    registry.announcing.lookup name = (registry.lookup name).map (·.announced name) := by
  induction registry with
  | nil => rfl
  | cons entry registry ih =>
      obtain ⟨key, command⟩ := entry
      rw [announcing, List.map_cons, List.lookup_cons, List.lookup_cons]
      by_cases hSame : name = key
      · subst hSame
        simp
      · simp only [beq_false_of_ne hSame]
        exact ih

/-- The announcing registry finds the same commands, each of which notes its name before it runs. -/
theorem find_announcing {registry : Registry} {name : Text} {command : Command}
    (h : registry.find name = .ok command) :
    registry.announcing.find name = .ok (command.announced name) := by
  rw [find] at h ⊢
  rw [lookup_announcing]
  cases hFound : registry.lookup name with
  | none =>
      rw [hFound] at h
      cases h
  | some found =>
      rw [hFound] at h
      cases h
      rfl

end Registry

theorem Command.run_announced {command : Command} {name : Text} {words : List Word}
    {stdin : Option Text} {session : Session} :
    ((command.announced name).run words stdin).run.run session =
      (command.run words stdin).run.run { session with warnings := session.warnings ++ [name] } := rfl

namespace Builtin

/-- A file is read without a change of the session. -/
theorem run_cat_file (session : Session) {content : Text}
    (h : session.volume.contentOf "/f" = .ok content) :
    (cat.run [.plain "/f"] none).run.run session = (.ok content, session) := by
  change (inputs "cat" ["/f"] none >>= fun found =>
    pure (found.flatMap Prod.snd) : Action Text).run.run session = _
  rw [Action.run_bind_ok (run_inputs "cat" h)]
  change (Except.ok (content ++ []), session) = _
  rw [List.append_nil]

end Builtin

namespace Shell

/-- The commands that a line runs, in order, when nothing else gives a warning. -/
def ran (shell : Shell) (line : Text) (session : Session) : List Text :=
  (((Shell.mk shell.registry.announcing shell.maxDepth).execute line).run.run
    { session with warnings := [] }).2.warnings

/-- Nothing but `cat` and `echo` is run when the content of the file reads as words. -/
theorem run_echoFile_builtin {maxDepth : Int} (hDepth : 0 ≤ maxDepth) {session : Session}
    {content : Text} {lexemes : List Lexeme} (hFile : session.volume.contentOf "/f" = .ok content)
    (hWords : ReadsAsWords (Text.dropFinal (chr '\n') content) lexemes) :
    ((Shell.mk Builtin.registry maxDepth).execute echoFile).run.run session =
      (.ok (Text.join [chr ' '] ((Wildcard.expand session.volume none
        (lexemes.map Lexeme.toWord)).map Word.text)), { session with exitCode := 0 }) := by
  have hRead := Builtin.run_cat_file { session with exitCode := 0 } hFile
  exact run_echoFile_words ⟨Builtin.registry, maxDepth⟩ hDepth session rfl rfl hRead hWords

/-- What runs are the two commands of the line, in the order of the substitution: no word of the
file is run. -/
theorem ran_echoFile {maxDepth : Int} (hDepth : 0 ≤ maxDepth) {session : Session}
    {content : Text} {lexemes : List Lexeme} (hFile : session.volume.contentOf "/f" = .ok content)
    (hWords : ReadsAsWords (Text.dropFinal (chr '\n') content) lexemes) :
    (Shell.mk Builtin.registry maxDepth).ran echoFile session = ["cat", "echo"] := by
  have hRead : ((Builtin.cat.announced "cat").run [.plain "/f"] none).run.run
      { session with warnings := [], exitCode := 0 } =
        (.ok content, { session with warnings := ["cat"], exitCode := 0 }) := by
    rw [Command.run_announced]
    exact Builtin.run_cat_file _ hFile
  have hRun := run_echoFile_words ⟨Builtin.registry.announcing, maxDepth⟩ hDepth
    { session with warnings := [] }
    (Registry.find_announcing (show Builtin.registry.find "cat" = .ok Builtin.cat from rfl))
    (Registry.find_announcing (show Builtin.registry.find "echo" = .ok Builtin.echo from rfl))
    hRead hWords
  rw [ran, hRun]
  rfl

/-- Whether the file holds words. -/
def HoldsWords (v : Volume) : Prop :=
  ∃ content lexemes, v.contentOf "/f" = .ok content ∧
    ReadsAsWords (Text.dropFinal (chr '\n') content) lexemes

/-- What a file holds is read as if it had been typed behind `echo`. Where it reads as words,
the same two commands are run whatever the words are, and the session stays as it is. -/
theorem execute_echoFile (maxDepth : Int) (hDepth : 0 ≤ maxDepth) :
    (∀ (session : Session) (content : Text), session.volume.contentOf "/f" = .ok content →
      ((Shell.mk Builtin.registry maxDepth).execute echoFile).run.run session =
        settled ((Builtin.registry.runPlain (echoed (Text.dropFinal (chr '\n') content))).run.run
          { session with exitCode := 0 })) ∧
    ∀ first second : Session, HoldsWords first.volume → HoldsWords second.volume →
      (Shell.mk Builtin.registry maxDepth).ran echoFile first = ["cat", "echo"] ∧
      (Shell.mk Builtin.registry maxDepth).ran echoFile second = ["cat", "echo"] ∧
      (((Shell.mk Builtin.registry maxDepth).execute echoFile).run.run first).2 =
        { first with exitCode := 0 } ∧
      (((Shell.mk Builtin.registry maxDepth).execute echoFile).run.run second).2 =
        { second with exitCode := 0 } := by
  constructor
  · intro session content hFile
    have hRead := Builtin.run_cat_file { session with exitCode := 0 } hFile
    have hRun := run_echoFile ⟨Builtin.registry, maxDepth⟩ hDepth session rfl hRead
    exact hRun
  · rintro first second ⟨content, lexemes, hFile, hWords⟩ ⟨content', lexemes', hFile', hWords'⟩
    refine ⟨ran_echoFile hDepth hFile hWords, ran_echoFile hDepth hFile' hWords', ?_, ?_⟩
    · rw [run_echoFile_builtin hDepth hFile hWords]
    · rw [run_echoFile_builtin hDepth hFile' hWords']

/-- A session whose file system holds one file. -/
def holding (content : Text) : Session :=
  { Registry.untouched with
    volume := ⟨#[some ⟨[], none, .origin, .origin, .directory [("f", 1)]⟩,
      some ⟨"f", some Volume.root, .origin, .origin, .file content⟩], Volume.root⟩ }

theorem holdsWords_of_reads {content : Text} {lexemes : List Lexeme}
    (h : ReadsAsWords (Text.dropFinal (chr '\n') content) lexemes) : HoldsWords (holding content).volume :=
  ⟨content, lexemes, rfl, h⟩

/-- Operators between quotes are words, and so are wildcards. -/
theorem execute_echoFile_quoted :
    HoldsWords (holding "a b\n").volume ∧ HoldsWords (holding "'; rm /f' *").volume ∧
    (Shell.mk Builtin.registry defaultMaxDepth).ran echoFile (holding "'; rm /f' *") =
      ["cat", "echo"] := by
  have hPlain : ReadsAsWords "a b" [.word (.plain "a") 0 false, .word (.plain "b") 2 false] :=
    ⟨rfl, by simp [Lexeme.OnlyWords], fun h => absurd h (by decide)⟩
  have hQuoted : ReadsAsWords "'; rm /f' *"
      [.word (.plain "; rm /f") 0 true, .word (.plain "*") 10 false] :=
    ⟨rfl, by simp [Lexeme.OnlyWords], fun h => absurd h (by decide)⟩
  have hFirst : HoldsWords (holding "a b\n").volume := holdsWords_of_reads hPlain
  have hSecond : HoldsWords (holding "'; rm /f' *").volume := holdsWords_of_reads hQuoted
  have hRuns := (execute_echoFile defaultMaxDepth (by decide)).2 _ _ hFirst hSecond
  exact ⟨hFirst, hSecond, hRuns.2.1⟩

/-- What `echo a ; touch /x` is divided into. -/
def echoThenTouch : List Segment :=
  [⟨.sequence, [.plain "echo", .plain "a"], none⟩, ⟨.close, [.plain "touch", .plain "/x"], none⟩]

theorem run_holding_touch (registry : Registry) {reader : Command} {later : Session}
    (session : Session) (hReader : registry.find "cat" = .ok reader)
    (hRead : (reader.run [.plain "/f"] none).run.run { session with exitCode := 0 } =
      (.ok "a ; touch /x", later)) :
    ((Shell.mk registry defaultMaxDepth).execute echoFile).run.run session =
      settled ((registry.runSegments echoThenTouch).run.run { later with exitCode := 0 }) := by
  have hPlain : registry.runPlain (echoed "a ; touch /x") = registry.runSegments echoThenTouch := by
    rw [registry.runPlain_of_block (Registry.allBlank_echo _) (Registry.ofLine?_echo _)]
    exact registry.runBlockWith_of_segments (fun h => absurd h (by decide)) rfl _
  have hDepth : 0 ≤ defaultMaxDepth := by decide
  have hRun := run_echoFile ⟨registry, defaultMaxDepth⟩ hDepth session hReader hRead
  rw [hRun]
  exact congrArg (fun action : Action Text => settled (action.run.run { later with exitCode := 0 })) hPlain

/-- What a file holds is not always only printed: of two contents the second one runs a third
command, which makes a file. -/
theorem exists_run_output :
    (¬ ∀ content content' : Text,
      let shell := Shell.mk Builtin.registry defaultMaxDepth
      shell.ran echoFile (holding content) = shell.ran echoFile (holding content') ∧
        ((shell.execute echoFile).run.run (holding content')).2.volume = (holding content').volume) ∧
    (Shell.mk Builtin.registry defaultMaxDepth).ran echoFile (holding "a ; touch /x") =
      ["cat", "echo", "touch"] := by
  constructor
  · intro h
    have hSame := congrArg (·.resolve? "/x") (h "a" "a ; touch /x").2
    rw [run_holding_touch Builtin.registry (holding "a ; touch /x") rfl rfl] at hSame
    revert hSame
    decide
  · rw [ran, run_holding_touch Builtin.registry.announcing _ rfl rfl]
    rfl

end Shell

end TreeShell
