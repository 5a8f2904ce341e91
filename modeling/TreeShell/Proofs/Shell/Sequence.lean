import Mathlib.Data.List.Basic
import TreeShell.Builtin.All
import TreeShell.Proofs.Shell.Session
import TreeShell.Shell.Pipeline

/-! Segments, run one after the other. A record keeps what became of every segment: whether
it was passed over or run, on which input and with which result. `runFrom_eq_record` says
that recording changes nothing, so that what is read off a record holds of the run. -/
namespace TreeShell.Registry

inductive Turn where
  | skipped
  | run (stdin : Option Text) (result : Except Fault Text)

/-- The output of a turn; a failure that is not passed on puts its message there. -/
def Turn.output? : Turn → Option Text
  | .skipped => none
  | .run _ (.ok output) => some output
  | .run _ (.error fault) => some fault.message

/-- Whether a turn failed; one that was passed over did neither. -/
def Turn.failed? : Turn → Option Bool
  | .skipped => none
  | .run _ (.ok _) => some false
  | .run _ (.error _) => some true

/-- A run of segments with its turns. A segment whose redirections cannot be read ends the
run before its turn. -/
structure Record where
  turns : List Turn
  result : Except Fault Text
  session : Session

/-- The record of a run in front of which another turn was taken. -/
def Record.after (turn : Turn) (later : Record) : Record := { later with turns := turn :: later.turns }

/-- Runs segments as `runFrom` does and records every turn. -/
def recordFrom (registry : Registry) (before : Option Joint) (output : Option Text) (failed : Bool) :
    List Segment → Session → Record
  | [], session => ⟨[], .ok (output.getD []), { session with exitCode := if failed then 1 else 0 }⟩
  | segment :: rest, session =>
    if isSkipped before failed then
      .after .skipped (registry.recordFrom (some segment.joint) output failed rest session)
    else match takeRedirections segment.command with
      | .error fault => ⟨[], .error fault, session⟩
      | .ok (command, redirections) =>
        let stdin := inputFor before segment output
        match (registry.runCommand command redirections stdin).run.run session with
        | (.ok output, session) => .after (.run stdin (.ok output))
            (registry.recordFrom (some segment.joint) (some output) false rest session)
        | (.error fault, session) =>
          if segment.joint = .and ∨ segment.joint = .pipe then
            ⟨[.run stdin (.error fault)], .error fault, { session with exitCode := 1 }⟩
          else .after (.run stdin (.error fault))
            (registry.recordFrom (some segment.joint) (some fault.message) true rest session)

def record (registry : Registry) (segments : List Segment) (session : Session) : Record :=
  registry.recordFrom none none false segments session

/-- Running segments is keeping a record of their turns: the record has the result and the last
session. -/
theorem runFrom_eq_record (registry : Registry) (before : Option Joint) (output : Option Text)
    (failed : Bool) (segments : List Segment) (session : Session) :
    (registry.runFrom before output failed segments).run.run session =
      ((registry.recordFrom before output failed segments session).result,
        (registry.recordFrom before output failed segments session).session) := by
  induction segments generalizing before output failed session with
  | nil => rfl
  | cons segment rest ih =>
      rw [runFrom, recordFrom]
      split
      · exact ih _ _ _ _
      · cases hWords : takeRedirections segment.command with
        | error fault => rfl
        | ok words =>
            obtain ⟨command, redirections⟩ := words
            simp only [Action.ofExcept, pure_bind, Action.run_bind, Action.run_observe]
            generalize (registry.runCommand command redirections (inputFor before segment output)).run.run
              session = outcome
            obtain ⟨fault | output, later⟩ := outcome
            · dsimp only
              split
              · rfl
              · exact ih _ _ _ _
            · exact ih _ _ _ _

/-- How the turns of a run can begin when there is a segment. -/
inductive Begins (registry : Registry) (before : Option Joint) (output : Option Text) (failed : Bool)
    (segment : Segment) (rest : List Segment) : List Turn → Prop where
  | skip (skipped : isSkipped before failed = true) (later : Session) :
      Begins registry before output failed segment rest
        (.skipped :: (registry.recordFrom (some segment.joint) output failed rest later).turns)
  | reject (kept : isSkipped before failed = false) (fault : Fault)
      (unreadable : takeRedirections segment.command = .error fault) :
      Begins registry before output failed segment rest []
  | run (kept : isSkipped before failed = false) (words : List Word × List Redirection)
      (readable : takeRedirections segment.command = .ok words) (turn : Turn) (later : Session)
      (result : Except Fault Text) (taken : turn = .run (inputFor before segment output) result)
      (goesOn : ∀ fault, result = .error fault → segment.joint ≠ .and ∧ segment.joint ≠ .pipe) :
      Begins registry before output failed segment rest
        (turn :: (registry.recordFrom (some segment.joint) (turn.output?.or output)
          (turn.failed?.getD failed) rest later).turns)
  | abandon (kept : isSkipped before failed = false) (words : List Word × List Redirection)
      (readable : takeRedirections segment.command = .ok words) (fault : Fault) :
      Begins registry before output failed segment rest
        [.run (inputFor before segment output) (.error fault)]

/-- The first turn of a record is that of the first segment, skipped or run. -/
theorem begins_recordFrom (registry : Registry) (before : Option Joint) (output : Option Text)
    (failed : Bool) (segment : Segment) (rest : List Segment) (session : Session) :
    Begins registry before output failed segment rest
      (registry.recordFrom before output failed (segment :: rest) session).turns := by
  rw [recordFrom]
  cases hSkipped : isSkipped before failed with
  | true => exact .skip hSkipped session
  | false =>
      rw [if_neg Bool.false_ne_true]
      cases hWords : takeRedirections segment.command with
      | error fault => exact .reject hSkipped fault hWords
      | ok words =>
          obtain ⟨command, redirections⟩ := words
          dsimp only
          generalize (registry.runCommand command redirections (inputFor before segment output)).run.run
            session = outcome
          obtain ⟨fault | output, later⟩ := outcome
          · dsimp only
            split
            · exact .abandon hSkipped _ hWords fault
            · rename_i hJoint
              refine .run hSkipped _ hWords _ later (.error fault) rfl ?_
              rintro _ ⟨⟩
              exact not_or.mp hJoint
          · exact .run hSkipped _ hWords _ later (.ok output) rfl (by rintro _ ⟨⟩)

/-- The joint in front of a segment, `before` being that in front of the first one. -/
def jointBefore (before : Option Joint) (segments : List Segment) : Nat → Option Joint
  | 0 => before
  | i + 1 => segments[i]?.map Segment.joint

/-- The output that stands after some turns, `output` being that before them. -/
def outputAfter (output : Option Text) (turns : List Turn) : Option Text :=
  turns.foldl (fun output turn => turn.output?.or output) output

/-- Whether the last command before some place failed. -/
def failedAfter (failed : Bool) (turns : List Turn) : Bool :=
  turns.foldl (fun failed turn => turn.failed?.getD failed) failed

/-- Behind `&&` the last command has succeeded: one that fails in front of `&&` ends the run. -/
def Steady (before : Option Joint) (failed : Bool) : Prop := before = some .and → failed = false

theorem jointBefore_cons (before : Option Joint) (segment : Segment) (rest : List Segment) (i : Nat) :
    jointBefore before (segment :: rest) (i + 1) = jointBefore (some segment.joint) rest i := by
  cases i <;> rfl

/-- Where the exit code is steady, a segment is skipped exactly behind an `or` after success. -/
theorem isSkipped_iff {before : Option Joint} {failed : Bool} (h : Steady before failed) :
    isSkipped before failed = true ↔ before = some .or ∧ failed = false := by
  match before with
  | some .and => simp [isSkipped, h rfl]
  | some .or => simp [isSkipped]
  | none | some .pipe | some .sequence | some .close => simp [isSkipped]

/-- A run that has come to a turn goes on from there as a run of its own. -/
theorem recordFrom_resume {registry : Registry} {before : Option Joint} {output : Option Text}
    {failed : Bool} {segments : List Segment} {session : Session} (hSteady : Steady before failed)
    {turns : List Turn} (hTurns : (registry.recordFrom before output failed segments session).turns = turns)
    {i : Nat} (hi : i < turns.length) :
    Steady (jointBefore before segments i) (failedAfter failed (turns.take i)) ∧
    ∃ later, turns.drop i = (registry.recordFrom (jointBefore before segments i)
      (outputAfter output (turns.take i)) (failedAfter failed (turns.take i)) (segments.drop i)
        later).turns := by
  -- Induction on the place: what stands behind the first turn is a run of the rest.
  induction i generalizing before output failed segments session turns with
  | zero => exact ⟨hSteady, session, hTurns.symm⟩
  | succ i ih =>
      cases segments with
      | nil =>
          rw [← hTurns] at hi
          cases hi
      | cons segment rest =>
          have hBegins := begins_recordFrom registry before output failed segment rest session
          rw [hTurns] at hBegins
          rw [jointBefore_cons]
          cases hBegins with
          | skip skipped later =>
              refine ih ?_ rfl (Nat.lt_of_succ_lt_succ hi)
              intro _
              exact ((isSkipped_iff hSteady).mp skipped).2
          | reject kept fault unreadable => cases hi
          | run kept words readable turn later result taken goesOn =>
              refine ih ?_ rfl (Nat.lt_of_succ_lt_succ hi)
              intro hAnd
              rw [taken]
              cases result with
              | ok output => rfl
              | error fault => exact absurd (Option.some.inj hAnd) (goesOn fault rfl).1
          | abandon kept words readable fault => exact absurd hi (by simp)

section Places

variable {registry : Registry} {segments : List Segment} {session : Session} {turns : List Turn}
  {i : Nat}

/-- What can stand at a place of a run, from what stands before it. -/
theorem begins_at (hTurns : (registry.record segments session).turns = turns) (hi : i < turns.length) :
    ∃ segment, segments[i]? = some segment ∧
      Steady (jointBefore none segments i) (failedAfter false (turns.take i)) ∧
      Begins registry (jointBefore none segments i) (outputAfter none (turns.take i))
        (failedAfter false (turns.take i)) segment (segments.drop (i + 1)) (turns.drop i) := by
  obtain ⟨hSteady, later, hLater⟩ := recordFrom_resume (show Steady none false from nofun) hTurns hi
  cases hRest : segments.drop i with
  | nil =>
      rw [hRest] at hLater
      have hNone := congrArg List.length hLater
      rw [List.length_drop] at hNone
      change turns.length - i = 0 at hNone
      omega
  | cons segment rest =>
      have hSegment : segments[i]? = some segment := by
        rw [← List.head?_drop, hRest]
        rfl
      have hNext : segments.drop (i + 1) = rest := by
        rw [← List.drop_drop, hRest]
        rfl
      rw [hRest] at hLater
      rw [hNext, hLater]
      exact ⟨segment, hSegment, hSteady, begins_recordFrom ..⟩

theorem drop_eq_cons {turn : Turn} (h : turns[i]? = some turn) :
    turns.drop i = turn :: turns.drop (i + 1) := by
  obtain ⟨hi, hTurn⟩ := List.getElem?_eq_some_iff.mp h
  rw [List.drop_eq_getElem_cons hi, hTurn]

/-- A command is run on its body, or on the output so far where a pipe stands around it. -/
theorem stdin_eq_inputFor (hTurns : (registry.record segments session).turns = turns)
    {segment : Segment} (hSegment : segments[i]? = some segment) {stdin : Option Text}
    {result : Except Fault Text} (hTurn : turns[i]? = some (.run stdin result)) :
    stdin = inputFor (jointBefore none segments i) segment (outputAfter none (turns.take i)) := by
  obtain ⟨hi, _⟩ := List.getElem?_eq_some_iff.mp hTurn
  obtain ⟨found, hFound, _, hBegins⟩ := begins_at hTurns hi
  rw [hSegment] at hFound
  cases hFound
  rw [drop_eq_cons hTurn] at hBegins
  generalize turns.drop (i + 1) = later at hBegins
  cases hBegins with
  | run kept words readable turn session result taken goesOn =>
      cases taken
      rfl
  | abandon kept words readable fault => rfl

theorem outputAfter_append (output : Option Text) (first second : List Turn) :
    outputAfter output (first ++ second) = outputAfter (outputAfter output first) second :=
  List.foldl_append

theorem isSome_outputAfter {output : Option Text} (h : output.isSome = true) (turns : List Turn) :
    (outputAfter output turns).isSome = true := by
  induction turns generalizing output with
  | nil => exact h
  | cons turn turns ih =>
      apply ih
      rw [Option.isSome_or, h, Bool.or_true]

/-- The first segment is never passed over, so that behind it there is an output. -/
theorem isSome_output_behind (hTurns : (registry.record segments session).turns = turns)
    (hi : i < turns.length) (hFirst : 0 < i) : (outputAfter none (turns.take i)).isSome = true := by
  obtain ⟨k, rfl⟩ : ∃ k, i = k + 1 := ⟨i - 1, by omega⟩
  have hSome (stdin : Option Text) (result : Except Fault Text) (later : List Turn) :
      (outputAfter none ((Turn.run stdin result :: later).take (k + 1))).isSome = true := by
    change (outputAfter ((Turn.run stdin result).output?.or none) (later.take k)).isSome = true
    apply isSome_outputAfter
    cases result <;> rfl
  cases segments with
  | nil =>
      rw [← hTurns] at hi
      cases hi
  | cons segment rest =>
      have hBegins := begins_recordFrom registry none none false segment rest session
      rw [record] at hTurns
      rw [hTurns] at hBegins
      cases hBegins with
      | skip skipped later => cases skipped
      | reject kept fault unreadable => cases hi
      | run kept words readable turn later result taken goesOn =>
          rw [taken]
          exact hSome _ _ _
      | abandon kept words readable fault => exact hSome _ _ _

theorem outputAfter_succ {turn : Turn} (hTurn : turns[i]? = some turn) :
    outputAfter none (turns.take (i + 1)) = turn.output?.or (outputAfter none (turns.take i)) := by
  rw [List.take_add_one, hTurn, outputAfter_append]
  rfl

end Places

/-- The input of the segment at `i` by the law of pipes: its body, or else the output of the
segment before it if a pipe joins the two. -/
def pipeInput (segments : List Segment) (turns : List Turn) (i : Nat) (segment : Segment) :
    Option Text :=
  match segment.body with
  | some body => some body
  | none =>
    if jointBefore none segments i = some .pipe then turns[i - 1]?.bind Turn.output? else none

/-- The segment at `i` begins a pipe behind other commands, or a pipe joins it to a segment
that was passed over. -/
def Strays (segments : List Segment) (turns : List Turn) (i : Nat) (segment : Segment) : Prop :=
  segment.body = none ∧ 0 < i ∧
    (jointBefore none segments i ≠ some .pipe ∧ segment.joint = .pipe ∨
      jointBefore none segments i = some .pipe ∧ turns[i - 1]? = some .skipped)

theorem inputFor_of_body {segment : Segment} {body : Text} (h : segment.body = some body)
    (before : Option Joint) (output : Option Text) : inputFor before segment output = some body := by
  simp [inputFor, h]

theorem inputFor_first {segment : Segment} (h : segment.body = none) (output : Option Text) :
    inputFor none segment output = none := by
  simp [inputFor, h]

theorem inputFor_behind {segment : Segment} (h : segment.body = none) (before : Joint)
    (output : Option Text) : inputFor (some before) segment output =
      if segment.joint = .pipe ∨ before = .pipe then output else none := by
  simp [inputFor, h]

section Behind

variable {segments : List Segment} {turns : List Turn} {k : Nat} {segment previous : Segment}
  {turn : Turn}

theorem pipeInput_behind (hBody : segment.body = none) (hPrevious : segments[k]? = some previous)
    (hTurn : turns[k]? = some turn) : pipeInput segments turns (k + 1) segment =
      if previous.joint = .pipe then turn.output? else none := by
  simp [pipeInput, jointBefore, hBody, hPrevious, hTurn]

theorem strays_behind (hBody : segment.body = none) (hPrevious : segments[k]? = some previous)
    (hTurn : turns[k]? = some turn) : Strays segments turns (k + 1) segment ↔
      previous.joint ≠ .pipe ∧ segment.joint = .pipe ∨ previous.joint = .pipe ∧ turn = .skipped := by
  simp [Strays, jointBefore, hBody, hPrevious, hTurn]

end Behind

/-- The input of a command is that of the law of pipes, unless its segment strays. Then it is
the output of the last command that was run, whatever stands between the two. -/
theorem stdin_of_segment (registry : Registry) (segments : List Segment) (session : Session) :
    let found := registry.record segments session
    (registry.runSequence segments).run.run session = (found.result, found.session) ∧
    ∀ i segment stdin result, segments[i]? = some segment →
      found.turns[i]? = some (.run stdin result) →
        (¬ Strays segments found.turns i segment → stdin = pipeInput segments found.turns i segment) ∧
        (Strays segments found.turns i segment → ∃ output, stdin = some output ∧
          outputAfter none (found.turns.take i) = some output ∧
          pipeInput segments found.turns i segment = none) := by
  refine ⟨runFrom_eq_record registry none none false segments session, ?_⟩
  intro i segment stdin result hSegment hTurn
  generalize hTurns : (registry.record segments session).turns = turns at hTurn ⊢
  obtain ⟨hi, _⟩ := List.getElem?_eq_some_iff.mp hTurn
  rw [stdin_eq_inputFor hTurns hSegment hTurn]
  cases hBody : segment.body with
  | some body =>
      have hStays : ¬ Strays segments turns i segment := by simp [Strays, hBody]
      refine ⟨fun _ => ?_, fun hStrays => absurd hStrays hStays⟩
      simp [inputFor_of_body hBody, pipeInput, hBody]
  | none =>
      cases i with
      | zero =>
          refine ⟨fun _ => ?_, fun hStrays => absurd hStrays.2.1 (Nat.lt_irrefl 0)⟩
          simp [jointBefore, inputFor_first hBody, pipeInput, hBody]
      | succ k =>
          have hk := (List.getElem?_eq_some_iff.mp hSegment).1
          have hPrevious := List.getElem?_eq_getElem (Nat.lt_of_succ_lt hk)
          have hBefore := List.getElem?_eq_getElem (Nat.lt_of_succ_lt hi)
          obtain ⟨output, hOutput⟩ := Option.isSome_iff_exists.mp
            (isSome_output_behind hTurns hi (Nat.succ_pos k))
          generalize segments[k] = previous at hPrevious
          generalize turns[k] = turn at hBefore
          have hJoint : jointBefore none segments (k + 1) = some previous.joint := by
            simp [jointBefore, hPrevious]
          rw [strays_behind hBody hPrevious hBefore, pipeInput_behind hBody hPrevious hBefore, hJoint,
            inputFor_behind hBody]
          by_cases hPipe : previous.joint = .pipe
          · rw [if_pos (Or.inr hPipe), if_pos hPipe]
            cases turn with
            | skipped => simp [hPipe, hOutput, Turn.output?]
            | run stdin result =>
                rw [outputAfter_succ hBefore]
                cases result <;> simp [hPipe, Turn.output?]
          · by_cases hBegin : segment.joint = .pipe
            · simp [hPipe, hBegin, hOutput]
            · simp [hPipe, hBegin]

/-- A session in which nothing has been done. -/
def untouched : Session := .start (.fresh .origin) .empty .origin

/-- What `echo a ; tee f | cat` is divided into. -/
def echoThenTee : List Segment :=
  [⟨.sequence, [.plain "echo", .plain "a"], none⟩, ⟨.pipe, [.plain "tee", .plain "f"], none⟩,
    ⟨.close, [.plain "cat"], none⟩]

/-- The file gets what `echo` put out, though a semicolon stands between the two. -/
theorem stdin_of_segment_tee :
    Segment.ofLine "echo a ; tee f | cat" = .ok echoThenTee ∧
    ∃ output, some [chr 'a'] = some output ∧
      outputAfter none ((Builtin.registry.record echoThenTee untouched).turns.take 1) = some output ∧
      pipeInput echoThenTee (Builtin.registry.record echoThenTee untouched).turns 1
        ⟨.pipe, [.plain "tee", .plain "f"], none⟩ = none :=
  have hTurn := (stdin_of_segment Builtin.registry echoThenTee untouched).2 1
    ⟨.pipe, [.plain "tee", .plain "f"], none⟩ (some [chr 'a']) (.ok [chr 'a']) rfl rfl
  ⟨rfl, hTurn.2 ⟨rfl, Nat.one_pos, Or.inl ⟨by decide, rfl⟩⟩⟩

/-- The input of a command is not always that of the law of pipes. -/
theorem exists_stray_input :
    ¬ ∀ (registry : Registry) (segments : List Segment) (session : Session) (i : Nat)
      (segment : Segment) (stdin : Option Text) (result : Except Fault Text),
      segments[i]? = some segment →
      (registry.record segments session).turns[i]? = some (.run stdin result) →
      stdin = pipeInput segments (registry.record segments session).turns i segment := by
  intro h
  have hNone := h Builtin.registry echoThenTee untouched 1 ⟨.pipe, [.plain "tee", .plain "f"], none⟩
    (some [chr 'a']) (.ok [chr 'a']) rfl rfl
  cases hNone

/-- The segments from `i` to `k` are joined by pipes. -/
def Piped (segments : List Segment) (i k : Nat) : Prop :=
  k < segments.length ∧
    ∀ j segment, i ≤ j → j < k → segments[j]? = some segment → segment.joint = .pipe

theorem Piped.exists_segment {segments : List Segment} {i j k : Nat} (h : Piped segments i k)
    (hLow : i ≤ j) (hHigh : j < k) : ∃ segment, segments[j]? = some segment ∧ segment.joint = .pipe := by
  have hSegment := List.getElem?_eq_getElem (Nat.lt_trans hHigh h.1)
  exact ⟨_, hSegment, h.2 j _ hLow hHigh hSegment⟩

def Ran (turns : List Turn) (i : Nat) : Prop := ∃ stdin result, turns[i]? = some (.run stdin result)

section Skipped

variable {registry : Registry} {segments : List Segment} {session : Session} {turns : List Turn}
  {i : Nat}

/-- Only a success in front of `||` lets a segment be passed over. -/
theorem isSkipped_at (hTurns : (registry.record segments session).turns = turns)
    (hTurn : turns[i]? = some .skipped) :
    jointBefore none segments i = some .or ∧ failedAfter false (turns.take i) = false := by
  obtain ⟨hi, _⟩ := List.getElem?_eq_some_iff.mp hTurn
  obtain ⟨segment, _, hSteady, hBegins⟩ := begins_at hTurns hi
  rw [drop_eq_cons hTurn] at hBegins
  generalize turns.drop (i + 1) = later at hBegins
  cases hBegins with
  | skip skipped session => exact (isSkipped_iff hSteady).mp skipped
  | run kept words readable turn session result taken goesOn => cases taken

/-- The segment behind one that was passed over is run, unless it cannot be read. -/
theorem begins_behind_skipped (hTurns : (registry.record segments session).turns = turns)
    (hTurn : turns[i]? = some .skipped) {segment next : Segment}
    (hSegment : segments[i]? = some segment) (hNext : segments[i + 1]? = some next) :
    Begins registry (some segment.joint) (outputAfter none (turns.take i))
      (failedAfter false (turns.take i)) next (segments.drop (i + 2)) (turns.drop (i + 1)) := by
  obtain ⟨hi, _⟩ := List.getElem?_eq_some_iff.mp hTurn
  obtain ⟨found, hFound, _, hBegins⟩ := begins_at hTurns hi
  rw [hSegment] at hFound
  cases hFound
  have hRest : segments.drop (i + 1) = next :: segments.drop (i + 2) := by
    obtain ⟨hk, hSame⟩ := List.getElem?_eq_some_iff.mp hNext
    rw [List.drop_eq_getElem_cons hk, hSame]
  rw [drop_eq_cons hTurn, hRest] at hBegins
  generalize turns.drop (i + 1) = later at hBegins
  generalize outputAfter none (turns.take i) = output at hBegins ⊢
  cases hBegins with
  | skip skipped session => exact begins_recordFrom ..
  | run kept words readable turn session result taken goesOn => cases taken

/-- No segment behind a pipe is skipped, whatever became of the one before it. -/
theorem not_skipped_behind_pipe (hTurns : (registry.record segments session).turns = turns) {k j : Nat}
    (hPiped : Piped segments i k) (hLow : i < j) (hHigh : j ≤ k) : turns[j]? ≠ some .skipped := by
  intro hTurn
  obtain ⟨j, rfl⟩ : ∃ m, j = m + 1 := ⟨j - 1, by omega⟩
  obtain ⟨previous, hPrevious, hPipe⟩ := hPiped.exists_segment (Nat.le_of_lt_succ hLow) hHigh
  have hJoint := (isSkipped_at hTurns hTurn).1
  rw [jointBefore, hPrevious, Option.map_some, hPipe] at hJoint
  cases hJoint

/-- Behind a segment that was passed over a pipe goes on: the next one is run, on the output
that stood there before. -/
theorem ran_behind_skipped (hTurns : (registry.record segments session).turns = turns)
    (hTurn : turns[i]? = some .skipped) {k : Nat} (hPiped : Piped segments i k) (hLow : i < k)
    {next : Segment} (hNext : segments[i + 1]? = some next) :
    (∃ fault, takeRedirections next.command = .error fault ∧ turns.drop (i + 1) = []) ∨
    (∃ words, takeRedirections next.command = .ok words ∧ ∃ result,
      turns[i + 1]? = some (.run (next.body.or (outputAfter none (turns.take i))) result)) := by
  obtain ⟨segment, hSegment, hPipe⟩ := hPiped.exists_segment (Nat.le_refl i) hLow
  have hBegins := begins_behind_skipped hTurns hTurn hSegment hNext
  rw [hPipe] at hBegins
  have hInput : inputFor (some .pipe) next (outputAfter none (turns.take i)) =
      next.body.or (outputAfter none (turns.take i)) := by
    cases hBody : next.body with
    | some body => exact inputFor_of_body hBody _ _
    | none => simp [inputFor_behind hBody]
  rw [← hInput]
  have hHead : turns[i + 1]? = (turns.drop (i + 1)).head? := List.head?_drop.symm
  generalize turns.drop (i + 1) = later at hBegins hHead
  generalize outputAfter none (turns.take i) = output at hBegins
  rw [hHead]
  cases hBegins with
  | skip skipped session => cases skipped
  | reject kept fault unreadable => exact Or.inl ⟨fault, unreadable, rfl⟩
  | run kept words readable turn session result taken goesOn =>
      exact Or.inr ⟨words, readable, result, congrArg some taken⟩
  | abandon kept words readable fault => exact Or.inr ⟨words, readable, .error fault, rfl⟩

/-- Nothing of the pipe is run if it ends with the segment that was passed over, or if the
next one cannot be read. -/
theorem none_ran_iff (hTurns : (registry.record segments session).turns = turns)
    (hTurn : turns[i]? = some .skipped) {k : Nat} (hLow : i ≤ k) (hPiped : Piped segments i k) :
    (∀ j, i ≤ j → j ≤ k → ¬ Ran turns j) ↔ k = i ∨ ∃ next fault,
      segments[i + 1]? = some next ∧ takeRedirections next.command = .error fault := by
  constructor
  · intro hNone
    rcases Nat.lt_or_eq_of_le hLow with hk | rfl
    · right
      have hNext := List.getElem?_eq_getElem (Nat.lt_of_le_of_lt hk hPiped.1)
      rcases ran_behind_skipped hTurns hTurn hPiped hk hNext with
        ⟨fault, hFault, _⟩ | ⟨_, _, result, hRan⟩
      · exact ⟨_, fault, hNext, hFault⟩
      · exact absurd ⟨_, result, hRan⟩ (hNone (i + 1) (Nat.le_succ i) hk)
    · exact Or.inl rfl
  · rintro hEnd j hj hHigh ⟨stdin, result, hRan⟩
    rcases Nat.lt_or_eq_of_le hj with hj | rfl
    · rcases hEnd with rfl | ⟨next, fault, hNext, hFault⟩
      · omega
      · rcases ran_behind_skipped hTurns hTurn hPiped (Nat.lt_of_lt_of_le hj hHigh) hNext with
          ⟨_, _, hDrop⟩ | ⟨words, hWords, _⟩
        · have hLength := List.drop_eq_nil_iff.mp hDrop
          obtain ⟨hLess, _⟩ := List.getElem?_eq_some_iff.mp hRan
          omega
        · rw [hWords] at hFault
          cases hFault
    · rw [hTurn] at hRan
      cases hRan

end Skipped

/-- After a success the segment behind `||` is left out and nothing else: the line runs as
if the first command were joined to what follows it. -/
theorem runSequence_or (registry : Registry) {first second : Segment} (rest : List Segment)
    (hJoint : first.joint = .or) {command : List Word} {redirections : List Redirection}
    (hWords : takeRedirections first.command = .ok (command, redirections)) {session later : Session}
    {output : Text} (hRan : (registry.runCommand command redirections first.body).run.run session =
      (.ok output, later)) :
    (registry.runSequence (first :: second :: rest)).run.run session =
      (registry.runSequence ({ first with joint := second.joint } :: rest)).run.run session := by
  have hInput (segment : Segment) : inputFor none segment none = segment.body := by
    cases hBody : segment.body with
    | some body => exact inputFor_of_body hBody _ _
    | none => exact inputFor_first hBody _
  rw [runSequence, runSequence, runFrom_eq_record, runFrom_eq_record]
  simp only [recordFrom, isSkipped, hWords, hInput, hRan, hJoint, Record.after]
  rfl

/-- A segment is passed over after a success in front of `||`, and it alone: of a pipe that
begins with it the next segment is run, on the output that stood there before, and no other
one is passed over. So nothing of the pipe is run only if it ends with that segment, or if
the next one cannot be read; a line `A || B | C` runs as `A | C` when `A` succeeds. -/
theorem skipped_segment (registry : Registry) (segments : List Segment) (session : Session) :
    let found := registry.record segments session
    (registry.runSequence segments).run.run session = (found.result, found.session) ∧
    (∀ i k, found.turns[i]? = some .skipped → i ≤ k → Piped segments i k →
      (jointBefore none segments i = some .or ∧ failedAfter false (found.turns.take i) = false) ∧
      (∀ j, i < j → j ≤ k → found.turns[j]? ≠ some .skipped) ∧
      (∀ next, i < k → segments[i + 1]? = some next → ∀ words,
        takeRedirections next.command = .ok words → ∃ result, found.turns[i + 1]? =
          some (.run (next.body.or (outputAfter none (found.turns.take i))) result)) ∧
      ((∀ j, i ≤ j → j ≤ k → ¬ Ran found.turns j) ↔ k = i ∨ ∃ next fault,
        segments[i + 1]? = some next ∧ takeRedirections next.command = .error fault)) ∧
    ∀ first second rest command redirections output later, segments = first :: second :: rest →
      first.joint = .or → takeRedirections first.command = .ok (command, redirections) →
      (registry.runCommand command redirections first.body).run.run session = (.ok output, later) →
      (registry.runSequence segments).run.run session =
        (registry.runSequence ({ first with joint := second.joint } :: rest)).run.run session := by
  refine ⟨runFrom_eq_record registry none none false segments session, ?_, ?_⟩
  · intro i k hTurn hLow hPiped
    generalize hTurns : (registry.record segments session).turns = turns at hTurn ⊢
    refine ⟨isSkipped_at hTurns hTurn,
      fun j hj hHigh => not_skipped_behind_pipe hTurns hPiped hj hHigh, ?_,
      none_ran_iff hTurns hTurn hLow hPiped⟩
    intro next hk hNext words hWords
    rcases ran_behind_skipped hTurns hTurn hPiped hk hNext with ⟨fault, hFault, _⟩ | ⟨_, _, hRan⟩
    · rw [hFault] at hWords
      cases hWords
    · exact hRan
  · rintro first second rest command redirections output later rfl hJoint hWords hRan
    exact registry.runSequence_or rest hJoint hWords hRan

/-- What `echo a || echo b | tee f` is divided into. -/
def echoOrTee : List Segment :=
  [⟨.or, [.plain "echo", .plain "a"], none⟩, ⟨.pipe, [.plain "echo", .plain "b"], none⟩,
    ⟨.close, [.plain "tee", .plain "f"], none⟩]

theorem piped_echoOrTee : Piped echoOrTee 1 2 := by
  refine ⟨by decide, ?_⟩
  intro j segment hLow hHigh hSegment
  obtain rfl : j = 1 := by omega
  cases hSegment
  rfl

/-- The second `echo` is passed over, and `tee` is run on the output of the first. -/
theorem skipped_segment_tee :
    Segment.ofLine "echo a || echo b | tee f" = .ok echoOrTee ∧
    (Builtin.registry.record echoOrTee untouched).turns[1]? = some .skipped ∧
    ∃ result, (Builtin.registry.record echoOrTee untouched).turns[2]? = some (.run (some [chr 'a']) result) :=
  have hPipe := (skipped_segment Builtin.registry echoOrTee untouched).2.1 1 2 rfl (by decide)
    piped_echoOrTee
  ⟨rfl, rfl, hPipe.2.2.1 ⟨.close, [.plain "tee", .plain "f"], none⟩ (by decide) rfl _ rfl⟩

/-- A pipe behind `||` is not always passed over as a whole, and what is left of it makes a
file. -/
theorem exists_half_skipped_pipe :
    (¬ ∀ (registry : Registry) (segments : List Segment) (session : Session) (i k : Nat),
      (registry.record segments session).turns[i]? = some .skipped → i ≤ k → Piped segments i k →
      ∀ j, i ≤ j → j ≤ k → ¬ Ran (registry.record segments session).turns j) ∧
    (Builtin.registry.record echoOrTee untouched).session.volume.resolve? "/f" ≠ none := by
  constructor
  · intro h
    exact h Builtin.registry echoOrTee untouched 1 2 rfl (by decide) piped_echoOrTee 2 (by decide)
      (by decide) ⟨some [chr 'a'], .ok [chr 'a'], rfl⟩
  · decide

end TreeShell.Registry
