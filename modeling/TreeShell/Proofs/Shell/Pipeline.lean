import TreeShell.Proofs.Shell.Sequence

/-! Commands joined by pipes, run by themselves or as the segments of a line. Both runs do the
same to the session, stage by stage. They differ in what becomes of a fault of the last command:
a line goes on behind it, with the message as its output. -/
namespace TreeShell

/-- Commands as segments that are joined by pipes. -/
def Segment.piped : List (List Word) → List Segment
  | [] => []
  | [words] => [⟨.close, words, none⟩]
  | words :: next :: rest => ⟨.pipe, words, none⟩ :: piped (next :: rest)

namespace Registry

/-- How a pipeline comes to its end. -/
inductive PipeEnd where
  | output (text : Text)
  /-- The redirections of a command cannot be read. -/
  | unread (fault : Fault)
  /-- A command fails that others stand behind. -/
  | cut (fault : Fault)
  /-- The last command fails. -/
  | failed (fault : Fault)

/-- What a pipeline gives when it is run by itself. -/
def PipeEnd.alone : PipeEnd → Except Fault Text
  | .output text => .ok text
  | .unread fault | .cut fault | .failed fault => .error fault

/-- A pipeline that ends in a fault was not read, was cut before its end, or failed in its last
stage. -/
theorem PipeEnd.of_alone_eq_error {ending : PipeEnd} {fault : Fault}
    (h : ending.alone = .error fault) :
    ending = .unread fault ∨ ending = .cut fault ∨ ending = .failed fault := by
  cases ending with
  | output text => cases h
  | unread other =>
      cases h
      exact Or.inl rfl
  | cut other =>
      cases h
      exact Or.inr (Or.inl rfl)
  | failed other =>
      cases h
      exact Or.inr (Or.inr rfl)

/-- What a pipeline gives as a line. -/
def PipeEnd.joined : PipeEnd → Except Fault Text
  | .output text => .ok text
  | .unread fault | .cut fault => .error fault
  | .failed fault => .ok fault.message

/-- The exit code that a pipeline sets as a line, if it gets as far as a command. -/
def PipeEnd.code? : PipeEnd → Option Nat
  | .output _ => some 0
  | .unread _ => none
  | .cut _ | .failed _ => some 1

/-- A session in which the exit code of a line has been set. -/
def PipeEnd.leave (ending : PipeEnd) (session : Session) : Session :=
  { session with exitCode := ending.code?.getD session.exitCode }

/-- Commands come to an end, each of them run on the output of the one before it and the first
one on `input`: they begin in one session and leave another. -/
inductive Flows (registry : Registry) :
    (input : Option Text) → Session → (commands : List (List Word)) → PipeEnd → Session → Prop where
  | done (input : Option Text) (session : Session) :
      Flows registry input session [] (.output (input.getD [])) session
  | unread {words : List Word} {fault : Fault} (input : Option Text) (session : Session)
      (rest : List (List Word)) (unreadable : takeRedirections words = .error fault) :
      Flows registry input session (words :: rest) (.unread fault) session
  | cut {input : Option Text} {session later : Session} {words command : List Word}
      {redirections : List Redirection} {fault : Fault}
      (readable : takeRedirections words = .ok (command, redirections))
      (ran : (registry.runCommand command redirections input).run.run session = (.error fault, later))
      (next : List Word) (rest : List (List Word)) :
      Flows registry input session (words :: next :: rest) (.cut fault) later
  | failed {input : Option Text} {session later : Session} {words command : List Word}
      {redirections : List Redirection} {fault : Fault}
      (readable : takeRedirections words = .ok (command, redirections))
      (ran : (registry.runCommand command redirections input).run.run session = (.error fault, later)) :
      Flows registry input session [words] (.failed fault) later
  | stage {input : Option Text} {session middle later : Session} {words command : List Word}
      {redirections : List Redirection} {output : Text} {rest : List (List Word)} {ending : PipeEnd}
      (readable : takeRedirections words = .ok (command, redirections))
      (ran : (registry.runCommand command redirections input).run.run session = (.ok output, middle))
      (behind : Flows registry (some output) middle rest ending later) :
      Flows registry input session (words :: rest) ending later

variable {registry : Registry}

/-- Every pipeline comes to an end in one of the ways. -/
theorem exists_flows (input : Option Text) (session : Session) (commands : List (List Word)) :
    ∃ ending later, Flows registry input session commands ending later := by
  induction commands generalizing input session with
  | nil => exact ⟨_, _, .done input session⟩
  | cons words rest ih =>
      cases hWords : takeRedirections words with
      | error fault => exact ⟨_, _, .unread input session rest hWords⟩
      | ok read =>
          obtain ⟨command, redirections⟩ := read
          rcases hRan : (registry.runCommand command redirections input).run.run session with
            ⟨fault | output, middle⟩
          · cases rest with
            | nil => exact ⟨_, _, .failed hWords hRan⟩
            | cons next rest => exact ⟨_, _, .cut hWords hRan next rest⟩
          · obtain ⟨ending, later, hRest⟩ := ih (some output) middle
            exact ⟨ending, later, .stage hWords hRan hRest⟩

/-- The first stage of a pipeline, by what becomes of it: the rest runs on its output only if it
succeeds. -/
theorem run_runPipeline_cons (input : Option Text) (words : List Word) (rest : List (List Word))
    (session : Session) :
    (registry.runPipeline input (words :: rest)).run.run session =
      match takeRedirections words with
      | .error fault => (.error fault, session)
      | .ok (command, redirections) =>
        match (registry.runCommand command redirections input).run.run session with
        | (.ok output, later) => (registry.runPipeline (some output) rest).run.run later
        | (.error fault, later) => (.error fault, later) := by
  rw [runPipeline]
  cases takeRedirections words with
  | error fault => rfl
  | ok read =>
      obtain ⟨command, redirections⟩ := read
      simp only [Action.ofExcept, pure_bind, Action.run_bind]
      rcases (registry.runCommand command redirections input).run.run session with ⟨_ | _, _⟩ <;> rfl

/-- How a pipeline flows says what it is run to, and in which session it leaves the shell. -/
theorem Flows.run_runPipeline {input : Option Text} {session later : Session}
    {commands : List (List Word)} {ending : PipeEnd}
    (h : Flows registry input session commands ending later) :
    (registry.runPipeline input commands).run.run session = (ending.alone, later) := by
  induction h with
  | done input session => rfl
  | unread input session rest unreadable => rw [run_runPipeline_cons, unreadable, PipeEnd.alone]
  | cut readable ran next rest => simp only [run_runPipeline_cons, readable, ran, PipeEnd.alone]
  | failed readable ran => simp only [run_runPipeline_cons, readable, ran, PipeEnd.alone]
  | stage readable ran behind ih => simp only [run_runPipeline_cons, readable, ran, ih]

/-- The place behind `before`, where `output` stands, is one in a pipeline: the beginning, or
behind a pipe. -/
def InPipe (before : Option Joint) (output : Option Text) : Prop :=
  before = none ∧ output = none ∨ before = some .pipe

/-- One segment of a line, at a place in a pipeline. It is not passed over, and the output that
stands there is its input. -/
theorem run_runFrom_cons {before : Option Joint} {input : Option Text} (h : InPipe before input)
    (joint : Joint) (words : List Word) (rest : List Segment) (session : Session) :
    (registry.runFrom before input false (⟨joint, words, none⟩ :: rest)).run.run session =
      match takeRedirections words with
      | .error fault => (.error fault, session)
      | .ok (command, redirections) =>
        match (registry.runCommand command redirections input).run.run session with
        | (.ok output, later) => (registry.runFrom (some joint) (some output) false rest).run.run later
        | (.error fault, later) =>
          if joint = .and ∨ joint = .pipe then (.error fault, { later with exitCode := 1 })
          else (registry.runFrom (some joint) (some fault.message) true rest).run.run later := by
  have hKept : isSkipped before false = false := by
    rcases h with ⟨rfl, _⟩ | rfl <;> rfl
  have hInput : inputFor before ⟨joint, words, none⟩ input = input := by
    rcases h with ⟨rfl, rfl⟩ | rfl
    · rfl
    · rw [inputFor_behind rfl, if_pos (Or.inr rfl)]
  rw [runFrom, hKept, if_neg Bool.false_ne_true]
  cases takeRedirections words with
  | error fault => rfl
  | ok read =>
      obtain ⟨command, redirections⟩ := read
      simp only [Action.ofExcept, pure_bind, Action.run_bind, Action.run_observe, hInput]
      generalize (registry.runCommand command redirections input).run.run session = outcome
      obtain ⟨fault | output, later⟩ := outcome
      · dsimp only
        split <;> rfl
      · rfl

/-- As segments of a line the commands come to the same end. -/
theorem Flows.run_runFrom {input : Option Text} {session later : Session}
    {commands : List (List Word)} {ending : PipeEnd}
    (h : Flows registry input session commands ending later) {before : Option Joint}
    (hBefore : InPipe before input ∨ commands = []) :
    (registry.runFrom before input false (Segment.piped commands)).run.run session =
      (ending.joined, ending.leave later) := by
  induction h generalizing before with
  | done input session => rfl
  | @unread words fault input session rest unreadable =>
      have hPlace := hBefore.resolve_right (List.cons_ne_nil _ _)
      cases rest <;> rw [Segment.piped, run_runFrom_cons hPlace, unreadable] <;> rfl
  | cut readable ran next rest =>
      have hPlace := hBefore.resolve_right (List.cons_ne_nil _ _)
      rw [Segment.piped, run_runFrom_cons hPlace]
      simp only [readable, ran]
      rfl
  | failed readable ran =>
      have hPlace := hBefore.resolve_right (List.cons_ne_nil _ _)
      rw [Segment.piped, run_runFrom_cons hPlace]
      simp only [readable, ran]
      rfl
  | @stage input session middle later words command redirections output rest ending readable ran
      behind ih =>
      have hPlace := hBefore.resolve_right (List.cons_ne_nil _ _)
      cases rest with
      | nil =>
          rw [Segment.piped, run_runFrom_cons hPlace]
          simp only [readable, ran]
          exact ih (Or.inr rfl)
      | cons next rest =>
          rw [Segment.piped, run_runFrom_cons hPlace]
          simp only [readable, ran]
          exact ih (Or.inl (Or.inr rfl))

/-- Commands joined by pipes leave the same session as segments of a line as they do when they are
run by themselves, the exit code apart. They give the same output, with exit code zero. A fault is
the same in both runs when the redirections of a command cannot be read or a command fails that
others stand behind; when the last command fails, the line has its message as its output and exit
code one. Nothing else can go wrong. -/
theorem runSequence_piped (registry : Registry) (commands : List (List Word)) (session : Session) :
    let alone := (registry.runPipeline none commands).run.run session
    let joined := (registry.runSequence (Segment.piped commands)).run.run session
    joined.2 = { alone.2 with exitCode := joined.2.exitCode } ∧
    (∀ output, alone.1 = .ok output → joined.1 = .ok output ∧ joined.2.exitCode = 0) ∧
    (∀ fault later, Flows registry none session commands (.unread fault) later ∨
        Flows registry none session commands (.cut fault) later →
      alone = (.error fault, later) ∧ joined.1 = .error fault) ∧
    (∀ fault later, Flows registry none session commands (.failed fault) later →
      alone = (.error fault, later) ∧ joined.1 = .ok fault.message ∧ joined.2.exitCode = 1) ∧
    (∀ fault, alone.1 = .error fault → ∃ ending, Flows registry none session commands ending alone.2 ∧
      (ending = .unread fault ∨ ending = .cut fault ∨ ending = .failed fault)) := by
  intro alone joined
  have hAlone {ending : PipeEnd} {later : Session}
      (h : Flows registry none session commands ending later) : alone = (ending.alone, later) :=
    h.run_runPipeline
  have hJoined {ending : PipeEnd} {later : Session}
      (h : Flows registry none session commands ending later) :
      joined = (ending.joined, ending.leave later) :=
    h.run_runFrom (Or.inl (Or.inl ⟨rfl, rfl⟩))
  obtain ⟨ending, later, hFlows⟩ := registry.exists_flows none session commands
  refine ⟨?_, fun output hOutput => ?_, fun fault last hLast => ?_, fun fault last hLast => ?_,
    fun fault hFault => ?_⟩
  · rw [hAlone hFlows, hJoined hFlows]
    rfl
  · rw [hJoined hFlows]
    rw [hAlone hFlows] at hOutput
    cases ending with
    | output text => exact ⟨hOutput, rfl⟩
    | unread fault | cut fault | failed fault => cases hOutput
  · rcases hLast with hLast | hLast <;> exact ⟨hAlone hLast, by rw [hJoined hLast]; rfl⟩
  · rw [hJoined hLast]
    exact ⟨hAlone hLast, rfl, rfl⟩
  · rw [hAlone hFlows] at hFault ⊢
    exact ⟨ending, hFlows, PipeEnd.of_alone_eq_error hFault⟩

end Registry

end TreeShell
