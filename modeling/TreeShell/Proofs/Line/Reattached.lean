import TreeShell.Line.Heredoc.Segments
import TreeShell.Proofs.Line.Heredoc
import TreeShell.Proofs.Line.Redirection

/-! Redirections that are written out again. Words that can be read are a row of parts, so that what stands
behind them is read by itself. The words of a command hold no redirection, and a target stands behind its
redirector whatever it looks like; so a command and its redirections are read again from the words that
they are written with. A heredoc attaches redirections in this way to the command that they belong to. The
main statement is `takeRedirections_rewritten`. -/
namespace TreeShell

section Words

variable {words command : List Word} {found : List Redirection}

/-- What stands behind words that can be read is read by itself. -/
theorem takeRedirections_append_of_ok (h : takeRedirections words = .ok (command, found))
    (back : List Word) : takeRedirections (words ++ back) =
      (takeRedirections back).map fun (later, others) => (command ++ later, found ++ others) := by
  obtain ⟨parts, rfl, rfl, rfl⟩ := Redirection.takeRedirections_eq_ok_iff.mp h
  exact Redirection.takeRedirections_spelled parts back

/-- Redirections may be written behind words that can be read. -/
theorem takeRedirections_append_toWords (h : takeRedirections words = .ok (command, found))
    (more : List Redirection) : takeRedirections (words ++ more.flatMap Redirection.toWords) =
      .ok (command, found ++ more) := by
  have hMore := takeRedirections_toWords more []
  rw [List.append_nil, takeRedirections] at hMore
  rw [takeRedirections_append_of_ok h, hMore]
  simp [Except.map]

/-- The words of a command are read as they are. -/
theorem takeRedirections_of_not_redirects (h : ∀ w ∈ command, w.redirects = false) :
    takeRedirections command = .ok (command, []) := by
  have hCommand := @takeRedirections_append command [] h
  rw [List.append_nil, takeRedirections] at hCommand
  simpa [Except.map] using hCommand

end Words

/-- A segment with words attached to its command: behind it, or between words of its own that it begins
with and those that come next. -/
inductive Segment.Gains (own words : List Word) : Segment → Segment → Prop where
  | behind (segment : Segment) :
      Gains own words segment { segment with command := segment.command ++ words }
  | between (joint : Joint) (next : List Word) (body : Option Text) :
      Gains own words ⟨joint, own ++ next, body⟩ ⟨joint, own ++ words ++ next, body⟩

namespace Heredoc

/-- A heredoc without its redirections. -/
def bare (d : Heredoc) : Heredoc := { d with redirections := [] }

/-- Words that are added to the end of a pipe are added to one of its commands. -/
theorem exists_gains_addToPipeEnd (own words : List Word) {segments : List Segment} (h : segments ≠ []) :
    ∃ front last full back, segments = front ++ last :: back ∧
      addToPipeEnd words segments = front ++ full :: back ∧ Segment.Gains own words last full := by
  induction segments with
  | nil => exact absurd rfl h
  | cons segment rest ih =>
      cases rest with
      | nil => exact ⟨[], segment, _, [], rfl, rfl, .behind segment⟩
      | cons next rest =>
          rw [addToPipeEnd]
          by_cases hPipe : segment.joint = .pipe
          · obtain ⟨front, last, full, back, hRest, hAdded, hGains⟩ := ih (by simp)
            rw [if_pos hPipe, hAdded, hRest]
            exact ⟨segment :: front, last, full, back, rfl, rfl, hGains⟩
          · rw [if_neg hPipe]
            exact ⟨[], segment, _, next :: rest, rfl, rfl, .behind segment⟩

theorem addToPipeEnd_nil (segments : List Segment) : addToPipeEnd [] segments = segments := by
  fun_induction addToPipeEnd [] segments with
  | case1 => rfl
  | case2 last => simp
  | case3 segment next rest hPipe ih => rw [ih]
  | case4 segment next rest hPipe => simp

/-- The redirections of a heredoc are attached to one of its segments, which does not depend on them in
any other way. -/
theorem exists_gains {d : Heredoc} {segments : List Segment} (h : d.segments = .ok segments) :
    ∃ front before full back, d.bare.segments = .ok (front ++ before :: back) ∧
      segments = front ++ full :: back ∧
      Segment.Gains d.command (d.redirections.flatMap Redirection.toWords) before full := by
  rw [Heredoc.segments] at h ⊢
  simp only [bare, List.flatMap_nil, List.append_nil, addToPipeEnd_nil]
  generalize Text.strip (d.redirect.getD []) = redirect at h ⊢
  split at h
  · obtain ⟨words, hWords, hGroup⟩ := bind_eq_ok.mp h
    simp only [hWords, ok_bind]
    cases hSegments : Segment.group words with
    | nil =>
        rw [hSegments] at hGroup
        cases hGroup
        exact ⟨[], _, _, [], rfl, rfl, .behind ⟨.close, d.command, some d.content⟩⟩
    | cons next following =>
        rw [hSegments] at hGroup
        cases hGroup
        obtain ⟨front, last, full, back, hOld, hNew, hGains⟩ := exists_gains_addToPipeEnd d.command
          (d.redirections.flatMap Redirection.toWords) (List.cons_ne_nil next following)
        let first : Segment := ⟨.pipe, d.command, some d.content⟩
        exact ⟨first :: front, last, full, back,
          congrArg (fun rest => Except.ok (first :: rest)) hOld, congrArg (first :: ·) hNew, hGains⟩
  · obtain ⟨words, hWords, hGroup⟩ := bind_eq_ok.mp h
    simp only [hWords, ok_bind]
    cases hSegments : Segment.group words with
    | nil =>
        rw [hSegments] at hGroup
        cases hGroup
        exact ⟨[], _, _, [], rfl, rfl, .behind ⟨.close, d.command, some d.content⟩⟩
    | cons next following =>
        rw [hSegments] at hGroup
        cases hGroup
        exact ⟨[], _, _, following, rfl, rfl, .between _ _ _⟩

end Heredoc

/-- Redirections that are attached to a segment are read as its redirections, in front of those that
stood behind them or behind those that stood in front. -/
theorem Segment.Gains.takeRedirections_eq {own : List Word} {redirections : List Redirection}
    {before full : Segment}
    (h : Gains own (redirections.flatMap Redirection.toWords) before full)
    (hOwn : ∀ w ∈ own, w.redirects = false) {command : List Word} {found : List Redirection}
    (hRead : takeRedirections before.command = .ok (command, found)) :
    takeRedirections full.command = .ok (command, found ++ redirections) ∨
      takeRedirections full.command = .ok (command, redirections ++ found) := by
  cases h with
  | behind => exact Or.inl (takeRedirections_append_toWords hRead redirections)
  | between joint next body =>
      rw [takeRedirections_append hOwn] at hRead
      obtain ⟨⟨later, others⟩, hNext, hSame⟩ := map_eq_ok.mp hRead
      cases hSame
      have hFirst := takeRedirections_append_toWords (takeRedirections_of_not_redirects hOwn) redirections
      refine Or.inr ?_
      rw [takeRedirections_append_of_ok hFirst, hNext]
      rfl

namespace Redirection

/-- A command and its redirections are read again from the words that they are written with: the words
of the command with their marks, then each redirection, whatever its target looks like. Redirections that
are added come behind these. In this way a heredoc attaches its redirections to one of its segments: the
other segments are those that it has without them, and this one is read as the same command with the
redirections of the heredoc added to its own. -/
theorem takeRedirections_rewritten {words command : List Word} {found : List Redirection}
    (h : takeRedirections words = .ok (command, found)) :
    takeRedirections (command ++ found.flatMap toWords) = .ok (command, found) ∧
    (∀ more, takeRedirections (command ++ found.flatMap toWords ++ more.flatMap toWords) =
      .ok (command, found ++ more)) ∧
    ∀ (t : Text) (d : Heredoc) (segments : List Segment), Heredoc.parse t = .ok (some d) →
      d.segments = .ok segments → ∃ front before full back,
        d.bare.segments = .ok (front ++ before :: back) ∧ segments = front ++ full :: back ∧
        full.joint = before.joint ∧ full.body = before.body ∧
        ∀ command found, takeRedirections before.command = .ok (command, found) →
          takeRedirections full.command = .ok (command, found ++ d.redirections) ∨
            takeRedirections full.command = .ok (command, d.redirections ++ found) := by
  have hCommand := takeRedirections_of_not_redirects (redirects_of_takeRedirections h)
  have hAgain : takeRedirections (command ++ found.flatMap toWords) = .ok (command, found) :=
    takeRedirections_append_toWords hCommand found
  refine ⟨hAgain, takeRedirections_append_toWords hAgain, fun t d segments hParse hSegments => ?_⟩
  obtain ⟨_, _, _, _, _, _, hTaken⟩ := Heredoc.parse_eq_some hParse
  obtain ⟨front, before, full, back, hBare, hFull, hGains⟩ := Heredoc.exists_gains hSegments
  have hKept : full.joint = before.joint ∧ full.body = before.body := by
    cases hGains <;> exact ⟨rfl, rfl⟩
  exact ⟨front, before, full, back, hBare, hFull, hKept.1, hKept.2, fun command found hRead =>
    hGains.takeRedirections_eq (redirects_of_takeRedirections hTaken) hRead⟩

/-- A quoted operator among the words of a command keeps its mark, and one that is a target stays one.
So does the quoted pipe that a heredoc is sent to. -/
theorem takeRedirections_rewritten_quoted :
    takeRedirections [.plain "sort", ⟨">", true⟩, .plain ">", ⟨"2>&1", true⟩, .plain "-r"] =
      .ok ([.plain "sort", ⟨">", true⟩, .plain "-r"], [.to .output "2>&1"]) ∧
    takeRedirections [.plain "sort", ⟨">", true⟩, .plain "-r", .plain ">", .plain "2>&1", .plain "<",
        .plain "|"] =
      .ok ([.plain "sort", ⟨">", true⟩, .plain "-r"], [.to .output "2>&1", .to .input "|"]) ∧
    Heredoc.parse "cat > '|' <<EOF\nx\nEOF" =
      .ok (some ⟨[.plain "cat"], "x", none, [.to .output "|"], [], [], true⟩) ∧
    takeRedirections [.plain "cat", .plain ">", .plain "|"] =
      .ok ([.plain "cat"], [.to .output "|"]) := by
  have hRead : takeRedirections [.plain "sort", ⟨">", true⟩, .plain ">", ⟨"2>&1", true⟩, .plain "-r"] =
      .ok ([.plain "sort", ⟨">", true⟩, .plain "-r"], [.to .output "2>&1"]) := rfl
  have hParse : Heredoc.parse "cat > '|' <<EOF\nx\nEOF" =
      .ok (some ⟨[.plain "cat"], "x", none, [.to .output "|"], [], [], true⟩) := rfl
  obtain ⟨-, hMore, hHeredoc⟩ := takeRedirections_rewritten hRead
  obtain ⟨front, before, full, back, hBare, hFull, -, -, hSegment⟩ := hHeredoc _ _
    [⟨.close, [.plain "cat", .plain ">", .plain "|"], some "x"⟩] hParse rfl
  refine ⟨hRead, hMore [.to .input "|"], hParse, ?_⟩
  cases front with
  | nil =>
      cases hBare
      cases hFull
      exact (hSegment _ _ rfl).elim id id
  | cons => simp at hFull

end Redirection

end TreeShell
