import TreeShell.Proofs.Builtin.Mild
import TreeShell.Proofs.Shell.QuotedHeredoc
import TreeShell.Proofs.Shell.Sequence

/-! Lines that are rejected for the way they are written. A line is not read as a whole before it
is run: its substitutions come first, then the text before a heredoc, the heredoc and the text
behind it, and a segment of a chain is looked at when its turn has come. What is rejected has no
effect of its own and nothing behind it is run, but what was run before it stays done. -/
namespace TreeShell

/-- A sequence fails in its first part or in the second, with the session of the place where it
failed. -/
theorem Action.run_bind_eq_error {α β : Type} {first : Action α} {next : α → Action β}
    {session later : Session} {fault : Fault}
    (h : (first >>= next).run.run session = (.error fault, later)) :
    first.run.run session = (.error fault, later) ∨
    ∃ a middle, first.run.run session = (.ok a, middle) ∧
      (next a).run.run middle = (.error fault, later) := by
  rw [run_bind] at h
  rcases hFirst : first.run.run session with ⟨other | a, middle⟩
  · rw [hFirst] at h
    cases h
    exact Or.inl rfl
  · rw [hFirst] at h
    exact Or.inr ⟨a, middle, rfl, h⟩

/-- Capturing never fails: a command that does leaves a warning and no output. -/
theorem Registry.total_capture (registry : Registry) (command : Text) :
    Action.Total (registry.capture command) := by
  rw [capture]
  refine .bind (.observe _) fun result => ?_
  cases result with
  | ok output => exact .pure _
  | error fault => exact .bind (.warn _) fun _ => .pure _

/-- A loop gives a result: what fails in it is reported in warnings. -/
theorem ForLoop.total_runWith (loop : ForLoop) (execute : Text → Action Text) :
    Action.Total (loop.runWith execute) := by
  have hItems : Action.Total (loop.expandItems (execute loop.itemsLine)) := by
    rw [expandItems]
    split
    · refine .bind (.observe _) fun result => ?_
      cases result with
      | ok expanded => exact .pure _
      | error fault => exact .bind (.warn _) fun _ => .pure _
    · exact .pure _
  have hRound (item : Text) : Action.Total (loop.round item (execute (loop.bodyFor item))) := by
    rw [round]
    refine .bind (.observe _) fun result => ?_
    cases result with
    | ok output => exact .pure _
    | error fault => exact .bind (.warn _) fun _ => .pure _
  exact .bind hItems fun _ => .bind (.mapM hRound _) fun _ => .pure _

/-- The expansion of a line gives a result: a command that fails leaves nothing in its place. -/
theorem Shell.total_expand (shell : Shell) (depth : Int) (line : Text) :
    Action.Total (shell.expand depth line) := by
  induction hLength : line.length using Nat.strongRecOn generalizing depth line with
  | ind n ih =>
      change Action.Total (shell.answer (.expand depth line))
      rw [answer_eq_body, body]
      split
      · exact .pure _
      · split
        · exact .bind (.warn _) fun _ => .pure _
        · refine .bind (.forM .warn _) fun _ => .foldrM ?_ _
          intro span hSpan result
          have hShorter := Substitution.length_spans hSpan
          rw [hLength] at hShorter
          exact .bind (ih _ hShorter _ _ rfl) fun _ =>
            .bind (shell.registry.total_capture _) fun _ => .pure _

/-- Why a segment is rejected before its command runs: a redirection has no target, or a heredoc
has no body. -/
def Segment.rejection? (segment : Segment) : Option Fault :=
  match takeRedirections segment.command with
  | .error fault => some fault
  | .ok (_, redirections) =>
    if redirections.any Redirection.isHeredoc then some .bodylessHeredoc else none

theorem error_of_map {α β : Type} {x : Except Fault α} {f : α → β} {fault : Fault}
    (h : x.map f = .error fault) : x = .error fault := by
  cases x with
  | error other =>
      cases h
      rfl
  | ok a => cases h

/-- A missing target is a fault of the line. -/
theorem takeRedirections_kind {words : List Word} {fault : Fault}
    (h : takeRedirections words = .error fault) : fault.kind = .badLine := by
  fun_induction takeRedirections words with
  | case1 => cases h
  | case2 w rest hMerge ih => exact ih (error_of_map h)
  | case3 w how hHow =>
      cases h
      rfl
  | case4 w how hHow target rest ih => exact ih (error_of_map h)
  | case5 w rest hNoMerge hNoHow ih => exact ih (error_of_map h)

/-- A segment is rejected with a fault of the line, and not for an open quote. -/
theorem Segment.rejection?_kind {segment : Segment} {fault : Fault} (h : segment.rejection? = some fault) :
    fault.kind = .badLine := by
  rw [rejection?] at h
  split at h
  · rename_i hWords
    cases h
    exact takeRedirections_kind hWords
  · split at h
    · cases h
      rfl
    · cases h

namespace Registry

variable {registry : Registry}

/-- Segments that could be read, if they could, are run one after the other until one of them is
rejected: `v` is the volume that is left. -/
inductive Stops (registry : Registry) (session : Session) (fault : Fault) :
    (parts : Except Fault (List Segment)) → (v : Volume) → Prop where
  | unread : Stops registry session fault (.error fault) session.volume
  | segment (front : List Segment) (segment : Segment) (rest : List Segment) (output : Text)
      (middle : Session) (hFront : (registry.runSequence front).run.run session = (.ok output, middle))
      (hRejected : segment.rejection? = some fault) :
      Stops registry session fault (.ok (front ++ segment :: rest)) middle.volume

section Commands

variable (hMild : registry.Mild)

theorem mild_input (v : Volume) (redirections : List Redirection) (stdin : Option Text) :
    TreeShell.Mild (Redirection.input v redirections stdin) := by
  fun_induction Redirection.input v redirections stdin with
  | case1 => exact .ok _
  | case2 target rest _ ih => exact .bind (v.mild_contentOf _) fun content => ih content
  | case3 _ _ _ _ ih => exact ih

theorem mild_send (redirections : List Redirection) (output errors : Text) :
    Action.Mild (Redirection.send redirections output errors) :=
  .bind (.forM (fun w => Builtin.mild_writing w) _) fun _ => .pure _

include hMild

theorem mild_dispatch (command : List Word) (stdin : Option Text) :
    Action.Mild (registry.dispatch command stdin) := by
  cases command with
  | nil => exact .pure _
  | cons name words =>
      have hFind : TreeShell.Mild (registry.find name.text) := by
        rw [find]
        split
        · exact .ok _
        · exact .error rfl
      cases hFound : registry.find name.text with
      | error fault =>
          rw [dispatch, hFound]
          exact .throw_bind (hFind fault hFound)
      | ok found =>
          simp only [dispatch, hFound, Action.ofExcept, pure_bind]
          exact .bind .volume fun _ => hMild.find hFound _ _

theorem mild_runRedirected (command : List Word) (stdin : Option Text)
    (redirections : List Redirection) :
    Action.Mild (registry.runRedirected command stdin redirections) := by
  refine .bind (.ask fun v => mild_input v redirections stdin) fun stdin => ?_
  split
  · refine .bind ?_ fun _ => mild_send _ _ _
    refine .bind (.modify _) fun _ => .bind (.observe _) fun result => .bind .get fun _ =>
      .bind (.modify _) fun _ => ?_
    cases result with
    | ok output => exact .pure _
    | error fault => exact .pure _
  · exact .bind (mild_dispatch hMild _ _) fun _ => mild_send _ _ _

/-- A command without a heredoc among its redirections fails as commands do. -/
theorem mild_runCommand {redirections : List Redirection}
    (h : redirections.any Redirection.isHeredoc = false) (command : List Word) (stdin : Option Text) :
    Action.Mild (registry.runCommand command redirections stdin) := by
  rw [runCommand, h]
  change Action.Mild (if redirections.isEmpty then _ else _)
  split
  · exact mild_dispatch hMild _ _
  · exact mild_runRedirected hMild _ _ _

/-- A segment that is rejected when its turn has come is not run. -/
theorem rejection?_of_runCommand {segment : Segment} {command : List Word}
    {redirections : List Redirection}
    (hWords : takeRedirections segment.command = .ok (command, redirections))
    {stdin : Option Text} {session later : Session} {fault : Fault} (hSyntax : fault.isSyntax = true)
    (hRun : (registry.runCommand command redirections stdin).run.run session = (.error fault, later)) :
    segment.rejection? = some fault ∧ later = session := by
  rw [Segment.rejection?, hWords]
  cases hHeredoc : redirections.any Redirection.isHeredoc with
  | true =>
      rw [runCommand, hHeredoc] at hRun
      cases hRun
      exact ⟨if_pos hHeredoc, rfl⟩
  | false =>
      have hNone := mild_runCommand hMild hHeredoc command stdin session fault
      rw [hRun] at hNone
      rw [hNone rfl] at hSyntax
      cases hSyntax

/-- The first of some segments is passed, whatever stands behind it, or it ends the run. If it
does so by a rejection, the volume stays as it is. -/
theorem recordFrom_first (segment : Segment) (before : Option Joint) (output : Option Text)
    (failed : Bool) (session : Session) :
    (∃ turn next text again middle, ∀ rest,
      registry.recordFrom before output failed (segment :: rest) session =
        .after turn (registry.recordFrom next text again rest middle)) ∨
    ∃ fault, ∀ rest,
      (registry.recordFrom before output failed (segment :: rest) session).result = .error fault ∧
      (fault.isSyntax = true → segment.rejection? = some fault ∧
        (registry.recordFrom before output failed (segment :: rest) session).session.volume =
          session.volume) := by
  simp only [recordFrom]
  cases hSkipped : isSkipped before failed with
  | true => exact Or.inl ⟨_, _, _, _, _, fun _ => rfl⟩
  | false =>
      simp only [Bool.false_eq_true, if_false]
      cases hWords : takeRedirections segment.command with
      | error fault =>
          have hRejected : segment.rejection? = some fault := by
            rw [Segment.rejection?, hWords]
          exact Or.inr ⟨fault, fun _ => ⟨rfl, fun _ => ⟨hRejected, rfl⟩⟩⟩
      | ok words =>
          obtain ⟨command, redirections⟩ := words
          rcases hRun : (registry.runCommand command redirections
            (inputFor before segment output)).run.run session with ⟨fault | text, middle⟩
          · by_cases hJoint : segment.joint = .and ∨ segment.joint = .pipe
            · simp only [hRun, if_pos hJoint]
              refine Or.inr ⟨fault, fun _ => ⟨rfl, fun hSyntax => ?_⟩⟩
              obtain ⟨hRejected, rfl⟩ := rejection?_of_runCommand hMild hWords hSyntax hRun
              exact ⟨hRejected, rfl⟩
            · simp only [hRun, if_neg hJoint]
              exact Or.inl ⟨_, _, _, _, _, fun _ => rfl⟩
          · simp only [hRun]
            exact Or.inl ⟨_, _, _, _, _, fun _ => rfl⟩

/-- Segments whose run is ended by a rejection are run up to the one that is rejected. -/
theorem exists_rejected_segment {fault : Fault} (hSyntax : fault.isSyntax = true)
    {segments : List Segment} {before : Option Joint} {output : Option Text} {failed : Bool}
    {session : Session}
    (hResult : (registry.recordFrom before output failed segments session).result = .error fault) :
    ∃ front segment rest text, segments = front ++ segment :: rest ∧ segment.rejection? = some fault ∧
      (registry.recordFrom before output failed front session).result = .ok text ∧
      (registry.recordFrom before output failed front session).session.volume =
        (registry.recordFrom before output failed segments session).session.volume := by
  induction segments generalizing before output failed session with
  | nil => cases hResult
  | cons segment rest ih =>
      rcases recordFrom_first hMild segment before output failed session with
        ⟨turn, next, text, again, middle, hNext⟩ | ⟨other, hEnd⟩
      · rw [hNext] at hResult
        obtain ⟨front, stopped, behind, last, rfl, hRejected, hDone, hVolume⟩ := ih hResult
        refine ⟨segment :: front, stopped, behind, last, rfl, hRejected, ?_, ?_⟩
        · rw [hNext]
          exact hDone
        · rw [hNext, hNext]
          exact hVolume
      · obtain ⟨hOther, hRejected⟩ := hEnd rest
        rw [hResult] at hOther
        cases hOther
        exact ⟨[], segment, rest, output.getD [], rfl, (hRejected hSyntax).1, rfl,
          (hRejected hSyntax).2.symm⟩

/-- A line that is rejected while its segments run stops at one of them, and what was run before
stays. -/
theorem stops_of_runSegments {fault : Fault} (hSyntax : fault.isSyntax = true)
    {segments : List Segment} {session later : Session}
    (hRun : (registry.runSegments segments).run.run session = (.error fault, later)) :
    Stops registry session fault (.ok segments) later.volume := by
  unfold runSegments at hRun
  split at hRun
  · cases hRun
  · rename_i words body
    -- A single command is run by itself.
    have hOnly (h : Segment.rejection? ⟨.close, words, body⟩ = some fault) :
        Stops registry session fault (.ok [⟨.close, words, body⟩]) session.volume :=
      .segment [] _ [] [] { session with exitCode := 0 } rfl h
    rcases Action.run_bind_eq_error hRun with hUnread | ⟨⟨command, redirections⟩, middle, hRead, hRest⟩
    · rw [Action.run_ofExcept] at hUnread
      obtain ⟨hWords, rfl⟩ := Prod.mk.inj hUnread
      apply hOnly
      rw [Segment.rejection?, hWords]
    · rw [Action.run_ofExcept] at hRead
      obtain ⟨hWords, rfl⟩ := Prod.mk.inj hRead
      rcases Action.run_bind_eq_error hRest with hCommand | ⟨output, last, _, hExit⟩
      · obtain ⟨hRejected, rfl⟩ := rejection?_of_runCommand hMild
          (show takeRedirections (Segment.command ⟨.close, words, body⟩) = _ from hWords) hSyntax hCommand
        exact hOnly hRejected
      · cases hExit
  · rw [runSequence, runFrom_eq_record] at hRun
    obtain ⟨hResult, rfl⟩ := Prod.mk.inj hRun
    obtain ⟨front, segment, rest, text, rfl, hRejected, hDone, hVolume⟩ :=
      exists_rejected_segment hMild hSyntax hResult
    rw [← hVolume]
    apply Stops.segment front segment rest text _ _ hRejected
    rw [runSequence, runFrom_eq_record, hDone]

end Commands

end Registry

/-- The heredoc that a block is divided by. -/
def Heredoc.inBlock (block : Text) : Except Fault (Option Heredoc) :=
  if isPossible block then parse block else .ok none

/-- The segments of a heredoc, which needs a command. -/
def Heredoc.parts (d : Heredoc) : Except Fault (List Segment) := do
  let segments ← d.segments
  if d.command.isEmpty then throw .commandlessHeredoc
  return segments

/-- What a session is when a heredoc has been announced: a body that is not closed gives a
warning. -/
def Heredoc.announce (d : Heredoc) (session : Session) : Session :=
  if d.closed then session
  else { session with warnings := session.warnings ++ [("here-document delimited by end-of-file" : Text)] }

namespace Registry

variable {registry : Registry}

/-- Runs segments if they could be read. -/
def runParts (registry : Registry) (parts : Except Fault (List Segment)) : Action Text := do
  registry.runSegments (← Action.ofExcept parts)

theorem runBlockWith_eq (registry : Registry) (block : Text) (runHeredoc : Heredoc → Action Text) :
    registry.runBlockWith block runHeredoc =
      match Heredoc.inBlock block with
      | .error fault => throw fault
      | .ok (some d) => runHeredoc d
      | .ok none => registry.runParts (Segment.ofLine block) := by
  rw [runBlockWith, Heredoc.inBlock]
  split
  · rcases Heredoc.parse block with _ | (_ | _) <;> rfl
  · rfl

theorem run_runDelimited (registry : Registry) (d : Heredoc) (session : Session) :
    (registry.runDelimited d).run.run session =
      (registry.runParts d.parts).run.run (d.announce session) := by
  rw [runDelimited, runParts, Heredoc.parts, Heredoc.announce]
  cases d.closed <;> cases d.segments <;> cases d.command.isEmpty <;> rfl

/-- Parts that end in a fault of syntax were not divided, or stopped at one of the segments. -/
theorem stops_of_runParts (hMild : registry.Mild) {fault : Fault} (hSyntax : fault.isSyntax = true)
    {parts : Except Fault (List Segment)} {session later : Session}
    (hRun : (registry.runParts parts).run.run session = (.error fault, later)) :
    Stops registry session fault parts later.volume := by
  cases parts with
  | error other =>
      cases hRun
      exact .unread
  | ok segments => exact stops_of_runSegments hMild hSyntax hRun

/-- How a block comes to be rejected, and the volume `v` that is left. A part that is rejected
changes nothing, and the parts before it have been run to their ends. -/
inductive Rejected (registry : Registry) (fault : Fault) :
    (block : Text) → Session → (v : Volume) → Prop where
  /-- The heredoc of the block cannot be read. -/
  | unread {block : Text} {session : Session} (hHeredoc : Heredoc.inBlock block = .error fault) :
      Rejected registry fault block session session.volume
  /-- There is no heredoc, and a segment is rejected. -/
  | segments {block : Text} {session : Session} {v : Volume}
      (hHeredoc : Heredoc.inBlock block = .ok none)
      (hStops : Stops registry session fault (Segment.ofLine block) v) :
      Rejected registry fault block session v
  /-- The text before the heredoc is rejected. -/
  | lead {block : Text} {d : Heredoc} {session : Session} {v : Volume}
      (hHeredoc : Heredoc.inBlock block = .ok (some d)) (hLead : Rejected registry fault d.lead session v) :
      Rejected registry fault block session v
  /-- The text before the heredoc is run, and a segment of the heredoc is rejected. -/
  | command {block : Text} {d : Heredoc} {session middle : Session} {output : Text} {v : Volume}
      (hHeredoc : Heredoc.inBlock block = .ok (some d))
      (hLead : (registry.runPlain d.lead).run.run session = (.ok output, middle))
      (hStops : Stops registry (d.announce middle) fault d.parts v) :
      Rejected registry fault block session v
  /-- The heredoc is run, and the text behind it is rejected. -/
  | trail {block : Text} {d : Heredoc} {session middle last : Session} {output made : Text} {v : Volume}
      (hHeredoc : Heredoc.inBlock block = .ok (some d))
      (hLead : (registry.runPlain d.lead).run.run session = (.ok output, middle))
      (hCommand : (registry.runDelimited d).run.run middle = (.ok made, last))
      (hTrail : Rejected registry fault d.trail last v) :
      Rejected registry fault block session v

/-- The text around a heredoc is run as a line, also when it is blank. -/
theorem runHeredoc_runPlain (registry : Registry) (d : Heredoc) :
    registry.runHeredoc d (registry.runPlain d.lead) (registry.runPlain d.trail) = (do
      let _ ← registry.runPlain d.lead
      let output ← registry.runDelimited d
      if Text.allBlank d.trail then return output else registry.runPlain d.trail) := by
  rw [runHeredoc_eq]
  congr 1
  split
  · rename_i hBlank
    rw [runPlain, if_pos hBlank]
  · rfl

/-- A block is rejected in one of these ways if the text around its heredoc is. -/
theorem rejected_of_runBlockWith (hMild : registry.Mild) {fault : Fault}
    (hSyntax : fault.isSyntax = true) {block : Text} {session later : Session}
    (hText : ∀ d, Heredoc.inBlock block = .ok (some d) → ∀ part, part = d.lead ∨ part = d.trail →
      ∀ start, (registry.runPlain part).run.run start = (.error fault, later) →
        Rejected registry fault part start later.volume)
    (hRun : (registry.runBlockWith block fun found => registry.runHeredoc found
      (registry.runPlain found.lead) (registry.runPlain found.trail)).run.run session =
        (.error fault, later)) :
    Rejected registry fault block session later.volume := by
  rw [runBlockWith_eq] at hRun
  rcases hHeredoc : Heredoc.inBlock block with other | (_ | d)
  · rw [hHeredoc] at hRun
    cases hRun
    exact .unread hHeredoc
  · rw [hHeredoc] at hRun
    exact .segments hHeredoc (stops_of_runParts hMild hSyntax hRun)
  · rw [hHeredoc] at hRun
    dsimp only at hRun
    rw [runHeredoc_runPlain] at hRun
    rcases Action.run_bind_eq_error hRun with hLead | ⟨output, middle, hLead, hRest⟩
    · exact .lead hHeredoc (hText d hHeredoc _ (Or.inl rfl) session hLead)
    · rcases Action.run_bind_eq_error hRest with hCommand | ⟨made, last, hCommand, hTrail⟩
      · rw [run_runDelimited] at hCommand
        exact .command hHeredoc hLead (stops_of_runParts hMild hSyntax hCommand)
      · refine .trail hHeredoc hLead hCommand (hText d hHeredoc _ (Or.inr rfl) last ?_)
        split at hTrail
        · cases hTrail
        · exact hTrail

theorem Heredoc.parse_of_inBlock {block : Text} {d : Heredoc} (h : Heredoc.inBlock block = .ok (some d)) :
    Heredoc.parse block = .ok (some d) := by
  rw [Heredoc.inBlock] at h
  split at h
  · exact h
  · cases h

/-- What is run without expanding is rejected in one of these ways. -/
theorem rejected_of_runPlain (hMild : registry.Mild) {fault : Fault} (hSyntax : fault.isSyntax = true)
    {text : Text} {session later : Session}
    (hRun : (registry.runPlain text).run.run session = (.error fault, later)) :
    Rejected registry fault text session later.volume := by
  -- The text around a heredoc is shorter than the block.
  induction hLength : text.length using Nat.strongRecOn generalizing text session with
  | ind n ih =>
      cases hBlank : Text.allBlank text with
      | true =>
          rw [runPlain, if_pos hBlank] at hRun
          cases hRun
      | false =>
          cases hLoop : ForLoop.ofLine? text with
          | some loop =>
              rw [runPlain_of_loop registry hBlank hLoop] at hRun
              obtain ⟨output, last, hOutput⟩ := (loop.total_runWith registry.runPlain).run session
              rw [hOutput] at hRun
              cases hRun
          | none =>
              rw [runPlain_of_block registry hBlank hLoop] at hRun
              apply rejected_of_runBlockWith hMild hSyntax _ hRun
              intro d hHeredoc part hPart start hText
              obtain ⟨hLead, hTrail⟩ := Heredoc.parse_lighter (Heredoc.parse_of_inBlock hHeredoc)
              apply ih part.length _ hText rfl
              rcases hPart with rfl | rfl
              · omega
              · omega

/-- What does not come after another part leaves the volume as it is. -/
theorem Rejected.volume_eq {fault : Fault} {block : Text} {session : Session} {v : Volume}
    (hRejected : registry.Rejected fault block session v)
    (hNone : ∀ d, Heredoc.inBlock block ≠ .ok (some d))
    (hFirst : fault.kind = .openQuote ∨
      ∀ segments, Segment.ofLine block = .ok segments → segments.length = 1) :
    v = session.volume := by
  cases hRejected with
  | unread => rfl
  | segments _ hStops =>
      generalize Segment.ofLine block = parts at hStops hFirst
      cases hStops with
      | unread => rfl
      | segment front segment rest output middle hFront hRejected =>
          rcases hFirst with hQuote | hSingle
          · rw [Segment.rejection?_kind hRejected] at hQuote
            cases hQuote
          · have hLength := hSingle _ rfl
            cases front with
            | nil =>
                cases hFront
                rfl
            | cons first front => simp at hLength
  | lead hHeredoc _ => exact (hNone _ hHeredoc).elim
  | command hHeredoc _ _ => exact (hNone _ hHeredoc).elim
  | trail hHeredoc _ _ _ => exact (hNone _ hHeredoc).elim

end Registry

namespace Shell

/-- A line that is rejected is no loop, since a loop takes what its parts fail with into its output,
and it is rejected after its substitutions have been expanded. -/
theorem rejected_of_execute (shell : Shell) (hMild : shell.registry.Mild) {line : Text}
    {session later : Session} {fault : Fault} (hSyntax : fault.isSyntax = true)
    (hRun : (shell.execute line).run.run session = (.error fault, later)) :
    ForLoop.ofLine? line = none ∧
    ∃ block start, (shell.expand 0 line).run.run { session with exitCode := 0 } = (.ok block, start) ∧
      shell.registry.Rejected fault block start later.volume := by
  rw [run_execute] at hRun
  rcases hLine : (shell.runExpanding line).run.run { session with exitCode := 0 } with
    ⟨other | output, last⟩
  · rw [hLine] at hRun
    cases hRun
    cases hBlank : Text.allBlank line with
    | true =>
        rw [runExpanding, if_pos hBlank] at hLine
        cases hLine
    | false =>
        cases hLoop : ForLoop.ofLine? line with
        | some loop =>
            rw [shell.runExpanding_of_loop hBlank hLoop] at hLine
            obtain ⟨output, done, hOutput⟩ :=
              (loop.total_runWith shell.runExpanding).run { session with exitCode := 0 }
            rw [hOutput] at hLine
            cases hLine
        | none =>
            rw [shell.runExpanding_of_block hBlank hLoop] at hLine
            obtain ⟨block, start, hExpand⟩ := (shell.total_expand 0 line).run { session with exitCode := 0 }
            rw [Action.run_bind_ok hExpand] at hLine
            have hRejected := Registry.rejected_of_runBlockWith hMild hSyntax
              (fun _ _ _ _ _ hText => Registry.rejected_of_runPlain hMild hSyntax hText) hLine
            exact ⟨rfl, block, start, hExpand, hRejected⟩
  · rw [hLine] at hRun
    cases hRun

/-- A line that is rejected is no loop. It is rejected in one of its parts, which changes nothing,
and the volume is the one that the parts before it left: the substitutions of the line, the text
before a heredoc and the heredoc before the text behind it, the segments before one in a chain.
Where nothing comes before the rejection, nothing is changed. -/
theorem execute_rejected (maxDepth : Int) (line : Text) (session later : Session) (fault : Fault)
    (hRun : ((Shell.mk Builtin.registry maxDepth).execute line).run.run session = (.error fault, later))
    (hSyntax : fault.isSyntax = true) :
    ForLoop.ofLine? line = none ∧
    (∃ block start, ((Shell.mk Builtin.registry maxDepth).expand 0 line).run.run
        { session with exitCode := 0 } = (.ok block, start) ∧
      Builtin.registry.Rejected fault block start later.volume) ∧
    (maxDepth < 0 ∨ (Substitution.spans line).1 = [] →
      (∀ d, Heredoc.inBlock line ≠ .ok (some d)) →
      (fault.kind = .openQuote ∨ ∀ segments, Segment.ofLine line = .ok segments → segments.length = 1) →
      later.volume = session.volume) := by
  obtain ⟨hLoop, hPart⟩ :=
    rejected_of_execute ⟨Builtin.registry, maxDepth⟩ Builtin.mild_registry hSyntax hRun
  refine ⟨hLoop, hPart, ?_⟩
  intro hLiteral hNone hFirst
  obtain ⟨block, start, hExpand, hRejected⟩ := hPart
  rw [expand_of_literal _ hLiteral, Action.run_bind_ok (Action.run_warn _ _)] at hExpand
  cases hExpand
  exact hRejected.volume_eq hNone hFirst

/-- A chain that makes a file and is rejected behind it. -/
theorem run_touch_rejected : ∃ later,
    ((Shell.mk Builtin.registry defaultMaxDepth).execute "touch /x ; echo >").run.run
      Registry.untouched = (.error (.missingTarget ">"), later) ∧ later.volume.resolve? "/x" ≠ none := by
  have hBlock : (Shell.mk Builtin.registry defaultMaxDepth).runExpanding "touch /x ; echo >" =
      Builtin.registry.runSegments [⟨.sequence, [.plain "touch", .plain "/x"], none⟩,
        ⟨.close, [.plain "echo", .plain ">"], none⟩] := by
    rw [runExpanding_of_block _ (by decide) (by decide), expand_of_no_occurrence _ _ (by decide), pure_bind]
    exact Registry.runBlockWith_of_segments _ (fun h => absurd h (by decide)) rfl _
  rw [run_execute, hBlock]
  refine ⟨_, rfl, ?_⟩
  decide

/-- A line with nothing before the quote that is left open. -/
theorem run_quote_rejected : ((Shell.mk Builtin.registry defaultMaxDepth).execute "echo 'a").run.run
    Registry.untouched = (.error (.openQuote .single 5), { Registry.untouched with exitCode := 1 }) := by
  rw [run_execute, runExpanding_of_block _ (by decide) (by decide), expand_of_no_occurrence _ _ (by decide),
    pure_bind, Registry.runBlockWith_eq]
  rfl

/-- A file has been made when the second command turns out to lack its target. -/
theorem execute_rejected_touch :
    (∃ later, ((Shell.mk Builtin.registry defaultMaxDepth).execute "touch /x ; echo >").run.run
        Registry.untouched = (.error (.missingTarget ">"), later) ∧
      (Fault.missingTarget ">").isSyntax = true ∧
      ForLoop.ofLine? "touch /x ; echo >" = none ∧
      ∃ block start, ((Shell.mk Builtin.registry defaultMaxDepth).expand 0 "touch /x ; echo >").run.run
          { Registry.untouched with exitCode := 0 } = (.ok block, start) ∧
        Builtin.registry.Rejected (.missingTarget ">") block start later.volume) ∧
    ∃ later, ((Shell.mk Builtin.registry defaultMaxDepth).execute "echo 'a").run.run
      Registry.untouched = (.error (.openQuote .single 5), later) ∧
      later.volume = Registry.untouched.volume := by
  constructor
  · obtain ⟨later, hRun, _⟩ := run_touch_rejected
    have hSyntax : (Fault.missingTarget ">").isSyntax = true := rfl
    obtain ⟨hLoop, hPart, -⟩ := execute_rejected _ _ _ _ _ hRun hSyntax
    exact ⟨later, hRun, hSyntax, hLoop, hPart⟩
  · have hSpans : (Substitution.spans "echo 'a").1 = [] := by decide
    have hNone (d : Heredoc) : Heredoc.inBlock "echo 'a" ≠ .ok (some d) := by
      have hBlock : Heredoc.inBlock "echo 'a" = .ok none := rfl
      rw [hBlock]
      nofun
    obtain ⟨-, -, hUnchanged⟩ := execute_rejected _ _ _ _ _ run_quote_rejected rfl
    exact ⟨_, run_quote_rejected, hUnchanged (Or.inr hSpans) hNone (Or.inl rfl)⟩

/-- A line whose substitution makes a directory before the rest of it is rejected. -/
theorem run_mkdir_rejected : ∃ later,
    ((Shell.mk Builtin.registry defaultMaxDepth).execute "echo $(mkdir /x) 'a").run.run
      Registry.untouched = (.error (.openQuote .single 6), later) ∧
    later.volume.resolve? "/x" ≠ none := by
  obtain ⟨later, hCapture, hMade⟩ := run_capture_mkdir
  have hSpans : Substitution.spans "echo $(mkdir /x) 'a" = ([⟨5, 16, "mkdir /x"⟩], none) := by decide
  have hBlock : Substitution.splice "echo $(mkdir /x) 'a" ⟨5, 16, "mkdir /x"⟩ [] = "echo  'a" := by
    decide
  refine ⟨{ later with exitCode := 1 }, ?_, hMade⟩
  rw [run_execute, runExpanding_of_block _ (by decide) (by decide), expand_of_span _ (by decide) hSpans,
    outputOf_of_no_occurrence _ 0 (by decide)]
  simp only [bind_assoc, pure_bind]
  change settled ((Builtin.registry.capture "mkdir /x" >>= _ : Action Text).run.run
    Registry.untouched) = _
  rw [Action.run_bind_ok hCapture, hBlock, Registry.runBlockWith_eq]
  rfl

/-- A line that is rejected may have changed the volume before: by an earlier segment when a
later one is rejected, and by a substitution when a quote is open. -/
theorem exists_change_before_rejection :
    (¬ ∀ (line : Text) (session later : Session) (fault : Fault),
      ((Shell.mk Builtin.registry defaultMaxDepth).execute line).run.run session =
        (.error fault, later) → fault.isSyntax = true → later.volume = session.volume) ∧
    ∃ later, ((Shell.mk Builtin.registry defaultMaxDepth).execute "echo $(mkdir /x) 'a").run.run
      Registry.untouched = (.error (.openQuote .single 6), later) ∧
      later.volume.resolve? "/x" ≠ none := by
  refine ⟨?_, run_mkdir_rejected⟩
  intro h
  obtain ⟨later, hRun, hMade⟩ := run_touch_rejected
  rw [h _ _ _ _ hRun rfl] at hMade
  exact hMade (by decide)

end Shell

end TreeShell
