import TreeShell.Proofs.Line.Heredoc
import TreeShell.Shell.Interpreter

/-! Running a command with a body. All words between the last separator and `<<` are one
command: the first one names it, and pipes, `&&` and `||` are handed to it among the others. -/
namespace TreeShell

theorem Operator.hasGlob_text (op : Operator) : hasGlob op.text = false := by
  cases op with
  | redirect how => cases how <;> rfl
  | _ => rfl

theorem Word.hasGlob_of_joint? {w : Word} (h : w.joint?.isSome = true) : hasGlob w.text = false := by
  obtain ⟨joint, hJoint⟩ := Option.isSome_iff_exists.mp h
  obtain ⟨op, hOp, _⟩ := Option.bind_eq_some_iff.mp hJoint
  rw [Word.operator?] at hOp
  split at hOp
  · cases hOp
  · have hText := @List.find?_some _ (fun op : Operator => op.text == w.text) _ _ hOp
    rw [← eq_of_beq hText]
    exact op.hasGlob_text

/-- A word that is no pattern stays when words are expanded. -/
theorem Wildcard.mem_expandFrom {v : Volume} {start : Option Text} {keep : Bool} {w : Word}
    {words : List Word} (hMem : w ∈ words) (hPlain : hasGlob w.text = false) :
    w ∈ expandFrom v start keep words := by
  induction words generalizing keep with
  | nil => cases hMem
  | cons other words ih =>
      rw [expandFrom]
      rcases List.mem_cons.mp hMem with rfl | hMem
      · rw [hPlain, Bool.not_false, Bool.or_true, if_pos rfl]
        split
        · exact List.mem_cons_self
        · split <;> exact List.mem_cons_self
      · have hLater (keep : Bool) : w ∈ expandFrom v start keep words := ih hMem
        split
        · exact List.mem_cons_of_mem _ (hLater _)
        · split
          · exact List.mem_cons_of_mem _ (hLater _)
          · split
            · exact List.mem_cons_of_mem _ (hLater _)
            · split
              · exact List.mem_cons_of_mem _ (hLater _)
              · exact List.mem_append_right _ (hLater _)

namespace Heredoc

/-- The first of the commands that are run has the body as its input. Its words begin with
those of the heredoc, and the joints behind the first of these are handed to it as they are. -/
def HandsOver (d : Heredoc) (segments : List Segment) : Prop :=
  ∃ first following, segments = first :: following ∧ first.body = some d.content ∧
    ∀ command redirections, takeRedirections first.command = .ok (command, redirections) →
      d.command <+: command ∧ ∀ (v : Volume) (w : Word), w ∈ d.command.tail →
        w.joint?.isSome = true → w ∈ Wildcard.expand v none command.tail

theorem mem_expand_of_prefix {words command : List Word} (v : Volume) {w : Word}
    (hFirst : words <+: command) (hMem : w ∈ words.tail) (hJoint : w.joint?.isSome = true) :
    w ∈ Wildcard.expand v none command.tail := by
  obtain ⟨more, rfl⟩ := hFirst
  apply Wildcard.mem_expandFrom _ (Word.hasGlob_of_joint? hJoint)
  cases words with
  | nil => cases hMem
  | cons name words => exact List.mem_append_left more hMem

/-- However a command with a body goes on behind its delimiter, its own words come first and
stay together. -/
theorem handsOver_of_segments {d : Heredoc} {segments : List Segment}
    (hCommand : ∀ w ∈ d.command, w.redirects = false) (h : d.segments = .ok segments) :
    d.HandsOver segments := by
  have hFirst (more command : List Word) (redirections : List Redirection)
      (hTaken : takeRedirections (d.command ++ more) = .ok (command, redirections)) :
      d.command <+: command ∧ ∀ (v : Volume) (w : Word), w ∈ d.command.tail →
        w.joint?.isSome = true → w ∈ Wildcard.expand v none command.tail := by
    rw [takeRedirections_append hCommand] at hTaken
    obtain ⟨⟨found, others⟩, _, hSame⟩ := map_eq_ok.mp hTaken
    cases hSame
    have hWords : d.command <+: d.command ++ found := List.prefix_append _ _
    exact ⟨hWords, fun v w hMem hJoint => mem_expand_of_prefix v hWords hMem hJoint⟩
  rw [Heredoc.segments] at h
  split at h
  · obtain ⟨words, _, hWords⟩ := bind_eq_ok.mp h
    split at hWords
    · cases hWords
      exact ⟨_, _, rfl, rfl, hFirst _⟩
    · cases hWords
      refine ⟨_, _, rfl, rfl, fun command redirections hTaken => hFirst [] command redirections ?_⟩
      rwa [List.append_nil]
  · obtain ⟨words, _, hWords⟩ := bind_eq_ok.mp h
    split at hWords
    · cases hWords
      exact ⟨_, _, rfl, rfl, hFirst _⟩
    · cases hWords
      refine ⟨_, _, rfl, rfl, ?_⟩
      rw [List.append_assoc]
      exact hFirst _

/-- A command with a body and nothing behind its delimiter is one segment. -/
theorem segments_of_redirect {d : Heredoc} (h : d.redirect = none) :
    d.segments = .ok [⟨.close, d.command ++ d.redirections.flatMap Redirection.toWords,
      some d.content⟩] := by
  rw [segments, h]
  rfl

end Heredoc

namespace Registry

/-- Runs all words of a heredoc as one command, between the text before it and the text after
it. -/
def runWhole (registry : Registry) (d : Heredoc) (lead trail : Action Text) : Action Text := do
  if !Text.allBlank d.lead then
    let _ ← lead
  if !d.closed then Action.warn "here-document delimited by end-of-file"
  if d.command.isEmpty then throw .commandlessHeredoc
  let output ← registry.runCommand d.command d.redirections (some d.content)
  Action.exit 0
  if Text.allBlank d.trail then return output else trail

/-- A command with a body and nothing behind its delimiter runs on all of its words. -/
theorem runHeredoc_of_redirect (registry : Registry) {d : Heredoc} (lead trail : Action Text)
    (hCommand : ∀ w ∈ d.command, w.redirects = false) (h : d.redirect = none) :
    registry.runHeredoc d lead trail = registry.runWhole d lead trail := by
  have hTaken : takeRedirections (d.command ++ d.redirections.flatMap Redirection.toWords) =
      .ok (d.command, d.redirections) := by
    have hWords := takeRedirections_toWords d.redirections []
    rw [List.append_nil] at hWords
    rw [takeRedirections_append hCommand, hWords]
    simp [takeRedirections, Except.map]
  have hSegments : registry.runSegments [⟨.close, d.command ++ d.redirections.flatMap Redirection.toWords,
      some d.content⟩] = (do
        let output ← registry.runCommand d.command d.redirections (some d.content)
        Action.exit 0
        return output) := by
    rw [runSegments, hTaken]
    rfl
  have hOne : Action.ofExcept d.segments = pure [⟨.close, d.command ++
      d.redirections.flatMap Redirection.toWords, some d.content⟩] := by
    rw [Heredoc.segments_of_redirect h]
    rfl
  simp only [runHeredoc, runWhole, hOne, pure_bind, hSegments, bind_assoc]

/-- What a heredoc is attached to. The separators `;` and end of line are never among the
words of its command, but `|`, `&&` and `||` are, exactly when they are written before `<<`
and are no targets of redirections. The words are run as one command all the same. -/
theorem runHeredoc_joints {t : Text} {d : Heredoc} (h : Heredoc.parse t = .ok (some d)) :
    (∃ lead header rest lexemes,
      Heredoc.findHeader? [] [] (t.splitOn (chr '\n')) = some (lead, header, rest) ∧
      Lexeme.read header.command = .ok lexemes ∧
      d.command = (Lexeme.standing lexemes).map Lexeme.toWord ∧
      (∀ w ∈ d.command, w.joint? ≠ some .sequence) ∧
      ((∃ w ∈ d.command, w.joint?.isSome = true) ↔ ∃ op ∈ [Operator.pipe, .and, .or],
        ∃ position, .operator op position ∈ Lexeme.standing lexemes)) ∧
    (∀ segments, d.segments = .ok segments → d.HandsOver segments) ∧
    (d.redirect = none → ∀ (registry : Registry) (lead trail : Action Text),
      registry.runHeredoc d lead trail = registry.runWhole d lead trail) := by
  obtain ⟨lead, header, rest, lexemes, hHeader, hRead, hTaken⟩ := Heredoc.parse_eq_some h
  have hWords : Lexeme.WordsPlain lexemes := Lexeme.wordsPlain_readFrom (by exact trivial) hRead
  have hNo := Heredoc.noSequence_of_findHeader? hHeader hRead
  have hCommand := Lexeme.takeRedirections_toWord hWords hTaken
  have hKept := redirects_of_takeRedirections hTaken
  refine ⟨⟨lead, header, rest, lexemes, hHeader, hRead, hCommand, ?_, ?_⟩, ?_, ?_⟩
  · rw [hCommand]
    exact Lexeme.joint?_ne_sequence hWords hNo
  · rw [hCommand]
    exact Lexeme.exists_joint_iff hWords hNo
  · intro segments hSegments
    exact Heredoc.handsOver_of_segments hKept hSegments
  · intro hNone registry lead trail
    exact registry.runHeredoc_of_redirect lead trail hKept hNone

/-- What is read from `echo a && cat` with the body `x`. -/
def echoAndCat : Heredoc :=
  ⟨[.plain "echo", .plain "a", .plain "&&", .plain "cat"], "x", none, [], [], [], true⟩

/-- The body goes to `echo`, whose last words are `&&` and `cat`. -/
theorem runHeredoc_joints_and :
    Heredoc.parse "echo a && cat <<EOF\nx\nEOF" = .ok (some echoAndCat) ∧
      echoAndCat.HandsOver [⟨.close, echoAndCat.command, some "x"⟩] ∧
      (∀ (registry : Registry) (lead trail : Action Text),
        registry.runHeredoc echoAndCat lead trail = registry.runWhole echoAndCat lead trail) :=
  have hRuns := runHeredoc_joints (t := "echo a && cat <<EOF\nx\nEOF") (d := echoAndCat) rfl
  ⟨rfl, hRuns.2.1 _ rfl, hRuns.2.2 rfl⟩

/-- A heredoc is not always attached to one simple command. -/
theorem exists_joined_heredoc :
    ¬ ∀ (t : Text) (d : Heredoc), Heredoc.parse t = .ok (some d) → ∀ w ∈ d.command, w.joint? = none := by
  intro h
  have hNone := h "echo a && cat <<EOF\nx\nEOF" echoAndCat rfl (.plain "&&") (by decide)
  cases hNone

end Registry

end TreeShell
