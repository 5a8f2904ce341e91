import TreeShell.Proofs.Shell.Session
import TreeShell.Shell.Interpreter

/-! Running a line comes to an end. The calls that a line leads to are written down as data:
lines, loops, expansions, captures and commands with a body call each other. `body` is what
one call does when its own calls are answered by somebody else; `Calls` says which calls
these can be, whatever the items of a loop and the outputs of commands are. Every call is
above those it makes, so that no chain of calls goes on for ever. -/
namespace TreeShell

inductive Call where
  /-- A line is run, its substitutions being expanded or not. -/
  | line (text : Text) (expanding : Bool)
  | loop (found : ForLoop) (expanding : Bool)
  /-- The substitutions of a text are expanded. -/
  | expand (depth : Int) (text : Text)
  /-- A command is run for its output. -/
  | capture (command : Text)
  /-- A command with a body is run, and the text around it. -/
  | heredoc (found : Heredoc)

/-- The calls that a call can make, the callee first. Items of a loop are words of any text;
what is captured, and what is run after an expansion, is any text. -/
inductive Calls : Call → Call → Prop where
  | loop {text : Text} {found : ForLoop} {expanding : Bool} (read : ForLoop.ofLine? text = some found) :
      Calls (.loop found expanding) (.line text expanding)
  | expand (text : Text) : Calls (.expand 0 text) (.line text true)
  | heredoc {text : Text} {found : Heredoc} (read : Heredoc.parse text = .ok (some found)) :
      Calls (.heredoc found) (.line text false)
  | expanded (text : Text) (found : Heredoc) : Calls (.heredoc found) (.line text true)
  | items (found : ForLoop) (expanding : Bool) :
      Calls (.line found.itemsLine expanding) (.loop found expanding)
  | round (found : ForLoop) (expanding : Bool) {items item : Text} (among : item ∈ Text.words items) :
      Calls (.line (found.bodyFor item) expanding) (.loop found expanding)
  | inner {text : Text} (depth : Int) {span : Substitution.Span}
      (among : span ∈ (Substitution.spans text).1) :
      Calls (.expand (depth + 1) span.inner) (.expand depth text)
  | capture (depth : Int) (text command : Text) : Calls (.capture command) (.expand depth text)
  | captured (command : Text) : Calls (.line command false) (.capture command)
  | lead (found : Heredoc) : Calls (.line found.lead false) (.heredoc found)
  | trail (found : Heredoc) : Calls (.line found.trail false) (.heredoc found)

abbrev Answers := Call → Action Text

namespace Call

/-- Expanding comes before capturing, and that before running without expanding. -/
def stage : Call → Nat
  | .line _ true | .loop _ true => 3
  | .expand .. => 2
  | .capture _ => 1
  | .line _ false | .loop _ false | .heredoc _ => 0

/-- The most blanks that a line run by the call has. -/
def blanks : Call → Nat
  | .line text _ => text.blanks
  | .loop found _ => max (found.items.blanks + 1) found.body.blanks
  | .heredoc found => max found.lead.blanks found.trail.blanks
  | .expand .. | .capture _ => 0

/-- A loop is above lines with as many blanks, however long they are. -/
def spread : Call → Nat
  | .loop .. => 1
  | _ => 0

/-- The length of the text; a command with a body stands above the text around it. -/
def size : Call → Nat
  | .line text _ => 2 * text.length
  | .expand _ text => text.length
  | .heredoc found => 2 * max found.lead.length found.trail.length + 1
  | .loop .. | .capture _ => 0

/-- The rank of a call; ranks are compared from the left. -/
def rank (call : Call) : Nat × Nat × Nat × Nat := (call.stage, call.blanks, call.spread, call.size)

end Call

/-- Ranks are compared from the left. -/
def Below : Nat × Nat × Nat × Nat → Nat × Nat × Nat × Nat → Prop :=
  Prod.Lex (· < ·) (Prod.Lex (· < ·) (Prod.Lex (· < ·) (· < ·)))

theorem wellFounded_below : WellFounded Below :=
  (Prod.lex Nat.lt_wfRel (Prod.lex Nat.lt_wfRel (Prod.lex Nat.lt_wfRel Nat.lt_wfRel))).wf

theorem below_of_blanks {s b k n b' k' n' : Nat} (h : b < b') : Below (s, b, k, n) (s, b', k', n') :=
  .right _ (.left _ _ h)

/-- What has no more blanks is below by what comes next. -/
theorem below_of_spread {s b k n b' k' n' : Nat} (hBlanks : b ≤ b')
    (h : Prod.Lex (· < ·) (· < ·) (k, n) (k', n')) : Below (s, b, k, n) (s, b', k', n') := by
  rcases Nat.lt_or_eq_of_le hBlanks with hLess | rfl
  · exact below_of_blanks hLess
  · exact .right _ (.right _ h)

/-- Every call that is made on behalf of another one is smaller. -/
theorem Calls.below {callee call : Call} (h : Calls callee call) : Below callee.rank call.rank := by
  cases h with
  | @loop text found expanding read =>
      have hBlanks := ForLoop.blanks_ofLine? read
      have hLess : (Call.loop found expanding).blanks < text.blanks := by
        simp only [Call.blanks]
        omega
      cases expanding <;> exact below_of_blanks hLess
  | expand text => exact .left _ _ (show 2 < 3 by decide)
  | heredoc read =>
      obtain ⟨hLead, hTrail⟩ := Heredoc.parse_lighter read
      refine below_of_spread (Nat.max_le.mpr ⟨hLead.2, hTrail.2⟩) (.right _ ?_)
      simp only [Call.size]
      omega
  | expanded text found => exact .left _ _ (show 0 < 3 by decide)
  | items found expanding =>
      have hBlanks := found.blanks_itemsLine
      cases expanding <;>
        exact below_of_spread (Nat.le_trans hBlanks (Nat.le_max_left ..)) (.left _ _ Nat.one_pos)
  | round found expanding among =>
      have hBlanks := ForLoop.blanks_bodyFor (Text.blanks_words among) found
      cases expanding <;>
        exact below_of_spread (Nat.le_trans hBlanks (Nat.le_max_right ..)) (.left _ _ Nat.one_pos)
  | inner depth among => exact .right _ (.right _ (.right _ (Substitution.length_spans among)))
  | capture depth text command => exact .left _ _ (show 1 < 2 by decide)
  | captured command => exact .left _ _ (show 0 < 1 by decide)
  | lead found =>
      refine below_of_spread (Nat.le_max_left ..) (.right _ ?_)
      simp only [Call.size]
      omega
  | trail found =>
      refine below_of_spread (Nat.le_max_right ..) (.right _ ?_)
      simp only [Call.size]
      omega

theorem wellFounded_calls : WellFounded Calls :=
  Subrelation.wf Calls.below (InvImage.wf Call.rank wellFounded_below)

/-- Runs a loop whose lines are executed by somebody else. -/
def ForLoop.runWith (loop : ForLoop) (execute : Text → Action Text) : Action Text := do
  let items ← loop.expandItems (execute loop.itemsLine)
  let outputs ← (Text.words items).mapM fun item => loop.round item (execute (loop.bodyFor item))
  return Text.joinLines (outputs.filter (!·.isEmpty))

/-- Runs a block whose command with a body is run by somebody else. -/
def Registry.runBlockWith (registry : Registry) (block : Text) (runHeredoc : Heredoc → Action Text) :
    Action Text :=
  if Heredoc.isPossible block then
    match Heredoc.parse block with
    | .error fault => throw fault
    | .ok (some found) => runHeredoc found
    | .ok none => do registry.runSegments (← Action.ofExcept (Segment.ofLine block))
  else do registry.runSegments (← Action.ofExcept (Segment.ofLine block))

/-- The bounds on what a loop runs are used for termination only, so it runs the same without them.
-/
theorem ForLoop.run_eq_runWith (loop : ForLoop) {bound : Nat} (hItems : loop.items.blanks + 1 < bound)
    (hBody : loop.body.blanks < bound) (execute : Text → Action Text) :
    loop.run bound hItems hBody (fun part _ => execute part) = loop.runWith execute := by
  rw [run, runWith]
  congr 1
  funext items
  rw [List.mapM_subtype (g := fun item => loop.round item (execute (loop.bodyFor item))) fun _ _ => rfl,
    List.unattach_attach]

/-- The bounds on what a block runs are used for termination only. -/
theorem Registry.runBlock_eq_runBlockWith (registry : Registry) (block : Text)
    (execute : Text → Action Text) :
    registry.runBlock block (fun part _ => execute part) = registry.runBlockWith block fun found =>
      registry.runHeredoc found (execute found.lead) (execute found.trail) := by
  rw [runBlock, runBlockWith]
  split
  · split <;> simp_all
  · rfl

/-- Runs the command of a heredoc, and not the text around it. -/
def Registry.runDelimited (registry : Registry) (found : Heredoc) : Action Text := do
  if !found.closed then Action.warn "here-document delimited by end-of-file"
  let segments ← Action.ofExcept found.segments
  if found.command.isEmpty then throw .commandlessHeredoc
  registry.runSegments segments

/-- Lines in front of a heredoc and behind it are run unless they are blank. -/
theorem Registry.runHeredoc_eq (registry : Registry) (found : Heredoc) (lead trail : Action Text) :
    registry.runHeredoc found lead trail = (do
      let _ ← (if Text.allBlank found.lead then pure [] else lead)
      let output ← registry.runDelimited found
      if Text.allBlank found.trail then return output else trail) := by
  rw [runHeredoc, runDelimited]
  cases Text.allBlank found.lead <;> cases found.closed <;> cases found.command.isEmpty <;> simp

namespace Shell

/-- Puts the output of a command in the place of a substitution, the command being expanded
before it runs. -/
def expandSpan (ask : Answers) (depth : Int) (span : Substitution.Span) (result : Text) :
    Action Text := do
  let command ← ask (.expand (depth + 1) span.inner)
  return Substitution.splice result span (← ask (.capture command))

/-- What a call does when the calls that it makes are answered by `ask`. -/
def body (shell : Shell) (ask : Answers) : Answers
  | .line text expanding =>
    if Text.allBlank text then return []
    else match ForLoop.ofLine? text with
      | some found => ask (.loop found expanding)
      | none => do
        let block ← (if expanding then ask (.expand 0 text) else pure text)
        shell.registry.runBlockWith block fun found => ask (.heredoc found)
  | .loop found expanding => found.runWith fun part => ask (.line part expanding)
  | .expand depth text =>
    if !Text.occursIn [chr '$', chr '('] text then return text
    else if depth > shell.maxDepth then do
      Action.warn ("Substitution depth " ++ Text.ofInt depth ++ " exceeds " ++
        Text.ofInt shell.maxDepth ++ ", leaving text unexpanded")
      return text
    else do
      (Substitution.warnings text).forM Action.warn
      (Substitution.spans text).1.foldrM (expandSpan ask depth) text
  | .capture command => do
    match ← Action.observe (ask (.line command false)) with
    | .ok output => return Text.dropFinal (chr '\n') output
    | .error fault =>
      Action.warn ("Command substitution failed (" ++ command.take 50 ++ "): " ++ fault.message)
      return []
  | .heredoc found =>
    shell.registry.runHeredoc found (ask (.line found.lead false)) (ask (.line found.trail false))

/-- What the shell does for a call. -/
def answer (shell : Shell) : Answers
  | .line text expanding => shell.run text expanding
  | .loop found expanding => found.runWith fun part => shell.run part expanding
  | .expand depth text => shell.expand depth text
  | .capture command => shell.registry.capture command
  | .heredoc found => shell.registry.runHeredoc found (shell.registry.runPlain found.lead)
      (shell.registry.runPlain found.trail)

/-- The shell answers a call by doing its body, with itself for the calls in there. -/
theorem answer_eq_body (shell : Shell) (call : Call) : shell.answer call = shell.body shell.answer call := by
  cases call with
  | line text expanding =>
      cases expanding with
      | false =>
          change shell.registry.runPlain text = _
          rw [Registry.runPlain, body]
          split
          · rfl
          · split
            · rename_i found hLoop
              simp only [hLoop]
              exact ForLoop.run_eq_runWith found _ _ _
            · rename_i hLoop
              simp only [hLoop]
              exact Registry.runBlock_eq_runBlockWith shell.registry text _
      | true =>
          change shell.runExpanding text = _
          rw [runExpanding, body]
          split
          · rfl
          · split
            · rename_i found hLoop
              simp only [hLoop]
              exact ForLoop.run_eq_runWith found _ _ _
            · rename_i hLoop
              simp only [hLoop, Registry.runBlock_eq_runBlockWith]
              rfl
  | loop found expanding => rfl
  | expand depth text =>
      change shell.expand depth text = _
      rw [expand, List.foldrM_subtype (g := expandSpan shell.answer depth) fun _ _ _ => rfl,
        List.unattach_attach]
      rfl
  | capture command => rfl
  | heredoc found => rfl

/-- A line that is a loop is run as one. -/
theorem runExpanding_of_loop (shell : Shell) {line : Text} {loop : ForLoop}
    (hBlank : Text.allBlank line = false) (hLoop : ForLoop.ofLine? line = some loop) :
    shell.runExpanding line = loop.runWith shell.runExpanding := by
  change shell.answer (.line line true) = _
  rw [answer_eq_body, body, hBlank, hLoop]
  rfl

/-- A line that is no loop is run as a block, after its substitutions are expanded. -/
theorem runExpanding_of_block (shell : Shell) {line : Text} (hBlank : Text.allBlank line = false)
    (hLoop : ForLoop.ofLine? line = none) :
    shell.runExpanding line = (do
      let block ← shell.expand 0 line
      shell.registry.runBlockWith block fun found => shell.registry.runHeredoc found
        (shell.registry.runPlain found.lead) (shell.registry.runPlain found.trail)) := by
  change shell.answer (.line line true) = _
  rw [answer_eq_body, body, hBlank, hLoop]
  rfl

end Shell

namespace Registry

/-- A line that is a loop is run as one. -/
theorem runPlain_of_loop (registry : Registry) {line : Text} {loop : ForLoop}
    (hBlank : Text.allBlank line = false) (hLoop : ForLoop.ofLine? line = some loop) :
    registry.runPlain line = loop.runWith registry.runPlain := by
  change (Shell.mk registry 0).answer (.line line false) = _
  rw [Shell.answer_eq_body, Shell.body, hBlank, hLoop]
  rfl

/-- A line that is no loop is run as a block. -/
theorem runPlain_of_block (registry : Registry) {line : Text} (hBlank : Text.allBlank line = false)
    (hLoop : ForLoop.ofLine? line = none) :
    registry.runPlain line = registry.runBlockWith line fun found =>
      registry.runHeredoc found (registry.runPlain found.lead) (registry.runPlain found.trail) := by
  change (Shell.mk registry 0).answer (.line line false) = _
  rw [Shell.answer_eq_body, Shell.body, hBlank, hLoop]
  rfl

/-- A block without a heredoc is run as its segments. -/
theorem runBlockWith_of_segments (registry : Registry) {block : Text} {segments : List Segment}
    (hParse : Heredoc.isPossible block = true → Heredoc.parse block = .ok none)
    (hSegments : Segment.ofLine block = .ok segments) (runHeredoc : Heredoc → Action Text) :
    registry.runBlockWith block runHeredoc = registry.runSegments segments := by
  rw [runBlockWith, hSegments]
  split
  · rename_i hPossible
    rw [hParse hPossible]
    rfl
  · rfl

end Registry

namespace Shell

/-- The shell with calls nested up to a depth; those below are answered by `deeper`. -/
def unfold (shell : Shell) (deeper : Answers) : Nat → Answers
  | 0 => deeper
  | depth + 1 => shell.body (shell.unfold deeper depth)

end Shell

/-- From some depth on, what is done in a session is the same for every depth and whatever
stands below it. -/
def Settles {α : Type} (done : Nat → Answers → Action α) (action : Action α)
    (session : Session) : Prop :=
  ∃ depth, ∀ n, depth ≤ n → ∀ deeper, (done n deeper).run.run session = action.run.run session

namespace Settles

theorem refl {α : Type} (action : Action α) (session : Session) :
    Settles (fun _ _ => action) action session := ⟨0, fun _ _ _ => rfl⟩

/-- What settles in two parts settles as a whole: the depth that suffices for both is the larger
one. -/
theorem bind {α β : Type} {first : Nat → Answers → Action α} {action : Action α}
    {next : Nat → Answers → α → Action β} {rest : α → Action β} {session : Session}
    (hFirst : Settles first action session)
    (hNext : ∀ a later, Settles (fun n deeper => next n deeper a) (rest a) later) :
    Settles (fun n deeper => first n deeper >>= next n deeper) (action >>= rest) session := by
  obtain ⟨depth, hFirst⟩ := hFirst
  obtain ⟨result, later, hRun⟩ : ∃ result later, action.run.run session = (result, later) := ⟨_, _, rfl⟩
  cases result with
  | error fault =>
      refine ⟨depth, fun n hn deeper => ?_⟩
      rw [Action.run_bind, Action.run_bind, hFirst n hn deeper, hRun]
  | ok a =>
      obtain ⟨depth', hNext⟩ := hNext a later
      refine ⟨max depth depth', fun n hn deeper => ?_⟩
      rw [Action.run_bind, Action.run_bind, hFirst n (by omega) deeper, hRun]
      exact hNext n (by omega) deeper

/-- Observing an action changes nothing about when it settles. -/
theorem observe {α : Type} {done : Nat → Answers → Action α} {action : Action α}
    {session : Session} (h : Settles done action session) :
    Settles (fun n deeper => (done n deeper).observe) action.observe session := by
  obtain ⟨depth, h⟩ := h
  refine ⟨depth, fun n hn deeper => ?_⟩
  rw [Action.run_observe, Action.run_observe, h n hn deeper]

theorem mapM {α β : Type} {done : Nat → Answers → α → Action β} {act : α → Action β}
    {items : List α} (h : ∀ item ∈ items, ∀ session, Settles (fun n deeper => done n deeper item)
      (act item) session) (session : Session) :
    Settles (fun n deeper => items.mapM (done n deeper)) (items.mapM act) session := by
  induction items generalizing session with
  | nil => exact refl _ session
  | cons item items ih =>
      simp only [List.mapM_cons]
      apply bind (h item List.mem_cons_self session)
      intro output later
      apply bind (ih (fun item hItem => h item (List.mem_cons_of_mem _ hItem)) later)
      intro outputs last
      exact refl _ last

/-- A fold from the right settles item by item, in the session that the items behind have left. -/
theorem foldrM {α β : Type} {done : Nat → Answers → α → β → Action β}
    {act : α → β → Action β} {items : List α}
    (h : ∀ item ∈ items, ∀ b session, Settles (fun n deeper => done n deeper item b) (act item b) session)
    (b : β) (session : Session) :
    Settles (fun n deeper => items.foldrM (done n deeper) b) (items.foldrM act b) session := by
  induction items generalizing session with
  | nil => exact refl _ session
  | cons item items ih =>
      simp only [List.foldrM_cons]
      exact bind (ih (fun item hItem => h item (List.mem_cons_of_mem _ hItem)) session)
        (h item List.mem_cons_self)

theorem attempt {done : Nat → Answers → Action Text} {action : Action Text}
    {session : Session} (h : Settles done action session) (after : Except Fault Text → Action Text) :
    Settles (fun n deeper => (done n deeper).observe >>= after) (action.observe >>= after) session :=
  h.observe.bind fun result later => refl (after result) later

end Settles

/-- A loop settles if its items and all its rounds do. -/
theorem ForLoop.settles_runWith (found : ForLoop) {done : Nat → Answers → Text → Action Text}
    {execute : Text → Action Text}
    (hItems : ∀ session, Settles (fun n deeper => done n deeper found.itemsLine)
      (execute found.itemsLine) session)
    (hRound : ∀ items, ∀ item ∈ Text.words items, ∀ session, Settles
      (fun n deeper => done n deeper (found.bodyFor item)) (execute (found.bodyFor item)) session)
    (session : Session) :
    Settles (fun n deeper => found.runWith (done n deeper)) (found.runWith execute) session := by
  simp only [runWith]
  apply Settles.bind
  · simp only [expandItems]
    split
    · exact (hItems session).attempt _
    · exact .refl _ session
  · intro items later
    apply Settles.bind
    · apply Settles.mapM
      intro item hItem session
      exact (hRound items item hItem session).attempt _
    · intro outputs last
      exact .refl _ last

/-- A heredoc settles with the lines in front of it and behind it. -/
theorem Registry.settles_runHeredoc (registry : Registry) (found : Heredoc)
    {lead trail : Nat → Answers → Action Text} {runLead runTrail : Action Text}
    (hLead : ∀ session, Settles lead runLead session)
    (hTrail : ∀ session, Settles trail runTrail session) (session : Session) :
    Settles (fun n deeper => registry.runHeredoc found (lead n deeper) (trail n deeper))
      (registry.runHeredoc found runLead runTrail) session := by
  simp only [runHeredoc_eq]
  apply Settles.bind
  · split
    · exact .refl _ session
    · exact hLead session
  · intro _ later
    apply Settles.bind (.refl _ later)
    intro output last
    split
    · exact .refl _ last
    · exact hTrail last

/-- A block settles if the heredoc that is found in it does. -/
theorem Registry.settles_runBlockWith (registry : Registry) (block : Text)
    {done : Nat → Answers → Heredoc → Action Text} {runHeredoc : Heredoc → Action Text}
    (h : ∀ found, Heredoc.parse block = .ok (some found) → ∀ session,
      Settles (fun n deeper => done n deeper found) (runHeredoc found) session) (session : Session) :
    Settles (fun n deeper => registry.runBlockWith block (done n deeper))
      (registry.runBlockWith block runHeredoc) session := by
  simp only [runBlockWith]
  split
  · split
    · exact .refl _ session
    · rename_i found hParse
      exact h found hParse session
    · exact .refl _ session
  · exact .refl _ session

namespace Shell

/-- A call settles when the calls that it makes do. -/
theorem settles_body (shell : Shell) {done : Nat → Answers → Answers} {ask : Answers} {call : Call}
    (h : ∀ callee, Calls callee call → ∀ session,
      Settles (fun n deeper => done n deeper callee) (ask callee) session) (session : Session) :
    Settles (fun n deeper => shell.body (done n deeper) call) (shell.body ask call) session := by
  cases call with
  | line text expanding =>
      simp only [body]
      split
      · exact .refl _ session
      · split
        · rename_i found hLoop
          exact h _ (.loop hLoop) session
        · cases expanding with
          | false =>
              -- The block is the line itself, so that its heredoc is the one that was parsed.
              simp only [Bool.false_eq_true, if_false, pure_bind]
              apply Registry.settles_runBlockWith
              intro found hParse
              exact h _ (.heredoc hParse)
          | true =>
              apply Settles.bind (h _ (.expand text) session)
              intro block later
              apply Registry.settles_runBlockWith
              intro found hParse
              exact h _ (.expanded text found)
  | loop found expanding =>
      simp only [body]
      apply ForLoop.settles_runWith found
      · exact h _ (.items found expanding)
      · intro items item hItem
        exact h _ (.round found expanding hItem)
  | expand depth text =>
      simp only [body]
      split
      · exact .refl _ session
      · split
        · exact .refl _ session
        · apply Settles.bind (.refl _ session)
          intro _ later
          apply Settles.foldrM
          intro span hSpan result session
          apply Settles.bind (h _ (.inner depth hSpan) session)
          intro command later
          apply Settles.bind (h _ (.capture depth text command) later)
          intro output last
          exact .refl _ last
  | capture command => exact (h _ (.captured command) session).attempt _
  | heredoc found =>
      exact shell.registry.settles_runHeredoc found (h _ (.lead found)) (h _ (.trail found)) session

/-- A call only depends on the answers to the calls that it makes. -/
theorem body_congr (shell : Shell) {ask ask' : Answers} {call : Call}
    (h : ∀ callee, Calls callee call → ask callee = ask' callee) :
    shell.body ask call = shell.body ask' call := by
  funext session
  -- Answers that are the same at every depth settle only when they are equal.
  have hSettles : Settles (fun _ _ => shell.body ask call) (shell.body ask' call) session := by
    apply shell.settles_body
    intro callee hCallee session
    rw [h callee hCallee]
    exact .refl _ session
  obtain ⟨depth, hRun⟩ := hSettles
  exact hRun depth (Nat.le_refl _) ask

/-- Every call is answered within finitely many levels. The number of levels depends on the
session, since the outputs of commands decide which calls are made. -/
theorem settles_unfold (shell : Shell) (call : Call) (session : Session) :
    Settles (fun n deeper => shell.unfold deeper n call) (shell.answer call) session := by
  induction call using wellFounded_calls.induction generalizing session with
  | h call ih =>
      obtain ⟨depth, hRun⟩ := shell.settles_body ih session
      refine ⟨depth + 1, fun n hn deeper => ?_⟩
      obtain ⟨m, rfl⟩ : ∃ m, n = m + 1 := ⟨n - 1, by omega⟩
      rw [answer_eq_body]
      exact hRun m (by omega) deeper

/-- Running a line terminates, whatever the commands of the shell do and however deep it
expands. Calls are well-founded; the answers of the shell are those of `body`, which asks for
nothing but the calls that can be made; and in every session finitely many levels of calls
are enough, so that it does not matter what stands below them. -/
theorem calls_terminate (shell : Shell) :
    WellFounded Calls ∧
    (∀ (ask ask' : Answers) (call : Call), (∀ callee, Calls callee call → ask callee = ask' callee) →
      shell.body ask call = shell.body ask' call) ∧
    (∀ call, shell.answer call = shell.body shell.answer call) ∧
    ∀ (call : Call) (session : Session), ∃ depth, ∀ n, depth ≤ n → ∀ deeper,
      (shell.unfold deeper n call).run.run session = (shell.answer call).run.run session :=
  ⟨wellFounded_calls, fun _ _ _ h => shell.body_congr h, shell.answer_eq_body, shell.settles_unfold⟩

end Shell

end TreeShell
