import Mathlib.Data.List.TakeWhile
import TreeShell.Builtin.Compare
import TreeShell.Proofs.Builtin.Basic
import TreeShell.Proofs.Patch.Returns
import TreeShell.Proofs.Volume.Create

/-! The commands `diff` and `patch` one after the other, in a session that holds both files:
what the words of each command are read as, what a run of it does to the session, and what
the first file holds in the end. The main statement is `contentAfter_diff_patch`. -/
namespace TreeShell

namespace Builtin

open Options

/-- The words that ask `diff` for a form. -/
def formWords : Diff.Format → List Text
  | .normal => []
  | .unified => ["-u"]
  | .context => ["-c"]

def formSettings : Diff.Format → List (Text × Value)
  | .normal => []
  | .unified => [("-u", .on)]
  | .context => [("-c", .on)]

/-- The options of a format are read as its settings, in front of any other words. -/
theorem readWords_formWords (form : Diff.Format) (operands : List Operand) (words : List Text) :
    readWords diffSpec operands [] (formWords form ++ words) =
      readWords diffSpec operands (formSettings form) words := by
  cases form with
  | normal => rfl
  | unified =>
      have hFind : diffSpec.find? [chr '-', chr 'u'] =
          some (.flag ["-u", "--unified"] "Output 3 lines of unified context") := rfl
      exact readWords_flag hFind rfl rfl (by decide) operands [] words
  | context =>
      have hFind : diffSpec.find? [chr '-', chr 'c'] =
          some (.flag ["-c"] "Output 3 lines of copied context") := rfl
      exact readWords_flag hFind rfl rfl (by decide) operands [] words

/-- No option of a format carries a count, so nothing is detached from it. -/
theorem detachCounts_formWords (form : Diff.Format) {words : List Text}
    (h : ∀ word ∈ words, word.head? ≠ some (chr '-')) :
    detachCounts (formWords form ++ words) = formWords form ++ words := by
  have hKept : detachCounts words = words := by
    have hAll : ∀ word ∈ words, (word != separatorWord) = true := by
      intro word hWord
      simpa using ne_separatorWord (h word hWord)
    have hDetach : ∀ word ∈ words, detachCount word = [word] := by
      intro word hWord
      have hDash := h word hWord
      rw [detachCount.eq_def]
      split
      · exact absurd rfl hDash
      · rfl
    rw [detachCounts, List.takeWhile_eq_self_iff.mpr hAll, List.dropWhile_eq_nil_iff.mpr hAll,
      List.append_nil, List.flatMap_congr hDetach, List.flatMap_singleton']
  cases form with
  | normal => exact hKept
  | unified => exact congrArg ([chr '-', chr 'u'] :: ·) hKept
  | context => exact congrArg ([chr '-', chr 'c'] :: ·) hKept

section Words

variable {file1 file2 : Text} (hFile1 : file1.head? ≠ some (chr '-')) (hFile2 : file2.head? ≠ some (chr '-'))
include hFile1

theorem read_patch : patchSpec.read [file1] = .ok (.work ⟨[], [("file", [file1])]⟩) := by
  have hWords : ∀ word ∈ [file1], word.head? ≠ some (chr '-') := by simpa using hFile1
  have hServed : serveMost [.optional] [false] = [1] := by decide
  exact Spec.read_eq (readWords_held patchSpec patchSpec.operands [] hWords) hWords hServed
    (Nat.le_refl 1) (hand_each rfl hWords)

include hFile2

/-- The words of a comparison are read as its form and its two files. -/
theorem read_diff (form : Diff.Format) :
    diffSpec.read (detachCounts (formWords form ++ [file1, file2])) =
      .ok (.work ⟨formSettings form, [("file1", [file1]), ("file2", [file2])]⟩) := by
  have hWords : ∀ word ∈ [file1, file2], word.head? ≠ some (chr '-') := by simpa using ⟨hFile1, hFile2⟩
  have hServed : serveMost [.one, .one] [false, false] = [1, 1] := by decide
  have hFirst := readWords_held diffSpec diffSpec.operands (formSettings form) hWords
  rw [← readWords_formWords] at hFirst
  rw [detachCounts_formWords form hWords]
  exact Spec.read_eq hFirst hWords hServed (Nat.le_refl 2) (hand_each rfl hWords)

end Words

/-- The difference that `diff` is asked for. -/
theorem run_diff {session : Session} {file1 file2 content1 content2 : Text} (form : Diff.Format)
    (hFile1 : file1.head? ≠ some (chr '-')) (hFile2 : file2.head? ≠ some (chr '-'))
    (hContent1 : session.volume.contentOf file1 = .ok content1)
    (hContent2 : session.volume.contentOf file2 = .ok content2) (stdin : Option Text) :
    (diff.run ((formWords form ++ [file1, file2]).map Word.plain) stdin).run.run session =
      (.ok (Diff.diffTexts ⟨.exact, form, Diff.defaultContext, false⟩ (Text.lines content1)
        (Text.lines content2) file1 file2), session) := by
  have hRead := read_diff hFile1 hFile2 form
  have hWords : ((formWords form ++ [file1, file2]).map Word.plain).map Word.text =
      formWords form ++ [file1, file2] := by
    rw [List.map_map]
    exact List.map_id _
  have hOptions (operands : List (Text × List Text)) : diffOptions ⟨formSettings form, operands⟩ =
      ⟨.exact, form, Diff.defaultContext, false⟩ := by
    cases form <;> rfl
  have hSide {file content : Text} (hFile : file.head? ≠ some (chr '-'))
      (hContent : session.volume.contentOf file = .ok content) :
      (diffSide stdin file).run.run session = (.ok (Text.lines content), session) := by
    have hDash : (file == [chr '-']) = false := by
      rw [beq_eq_false_iff_ne]
      rintro rfl
      exact hFile rfl
    rw [diffSide.eq_def, hDash, if_neg Bool.false_ne_true,
      Action.run_bind_ok (run_readFile "diff" hContent)]
    rfl
  have hWord1 : (Arguments.mk (formSettings form) [("file1", [file1]), ("file2", [file2])]).word
      "file1" = file1 := rfl
  have hWord2 : (Arguments.mk (formSettings form) [("file1", [file1]), ("file2", [file2])]).word
      "file2" = file2 := rfl
  rw [diff, run_prepared (by rw [hWords]; exact hRead), hWord1, hWord2, hOptions,
    Action.run_bind_ok (hSide hFile1 hContent1), Action.run_bind_ok (hSide hFile2 hContent2)]
  rfl

/-- The text of patched lines, which ends as the original text does unless nothing is left. -/
def endedLike (original patched : Text) : Text :=
  if original.getLast? = some (chr '\n') && !patched.isEmpty then patched ++ [chr '\n'] else patched

theorem endedLike_of_ended {original : Text} (h : original.getLast? = some (chr '\n')) (patched : Text) :
    endedLike original patched = if patched = [] then [] else patched ++ [chr '\n'] := by
  cases patched <;> simp [endedLike, h]

section Patch

variable {session : Session} {path content : Text} {found : InodeId}
  (hFound : session.volume.lookup path = .ok found)
  (hContent : session.volume.content? found = some content)
include hFound hContent

/-- Patching the content of a file is applying the hunks to its lines, with the warnings noted. -/
theorem run_patchedContent (hunks : List Patch.Hunk) :
    (patchedContent hunks false path).run.run session =
      match Patch.apply (Text.lines content) hunks false Patch.defaultMaxOffset with
      | (warnings, .ok result) => (.ok (endedLike content (Text.joinLines result)),
          { session with warnings := session.warnings ++ warnings })
      | (warnings, .error fault) => (.error fault,
          { session with warnings := session.warnings ++ warnings }) := by
  obtain ⟨warnings, outcome, hApply⟩ : ∃ warnings outcome, Patch.apply (Text.lines content) hunks
    false Patch.defaultMaxOffset = (warnings, outcome) := ⟨_, _, rfl⟩
  have hVolume : Action.volume.run.run session = (.ok session.volume, session) := rfl
  have hRead := run_readFile "patch" (contentOf_of_lookup hFound hContent)
  rw [patchedContent, Action.run_bind_ok hVolume, resolve?_of_lookup hFound]
  dsimp only
  rw [Action.run_bind_ok hRead, hApply]
  dsimp only
  rw [Action.run_bind_ok (Action.run_warn warnings session)]
  cases outcome <;> rfl

/-- A patch without a name for its output writes the patched text back to the file, with the
warnings of the hunks that drifted. -/
theorem run_patchFile (hunks : List Patch.Hunk) :
    (patchFile [] false (path, hunks)).run.run session =
      match Patch.apply (Text.lines content) hunks false Patch.defaultMaxOffset with
      | (warnings, .ok result) => (.ok ("patched " ++ path), { session with
          volume := session.volume.setContent session.now found
            (endedLike content (Text.joinLines result))
          warnings := session.warnings ++ warnings })
      | (warnings, .error fault) => (.error fault,
          { session with warnings := session.warnings ++ warnings }) := by
  have hRun := run_patchedContent hFound hContent hunks
  rw [patchFile, Action.run_bind, hRun]
  obtain ⟨warnings, outcome, hApply⟩ : ∃ warnings outcome, Patch.apply (Text.lines content) hunks
    false Patch.defaultMaxOffset = (warnings, outcome) := ⟨_, _, rfl⟩
  rw [hApply]
  cases outcome with
  | error fault => rfl
  | ok result =>
      have hWrite (text : Text) : session.volume.writeFile session.now path text false =
          (.ok found, session.volume.setContent session.now found text) := by
        rw [Volume.writeFile, resolve?_of_lookup hFound]
        simp only [hContent, Bool.false_eq_true, if_false]
      dsimp only
      rw [Action.run_bind_ok (Action.run_within_changePartly (hWrite _) "patch")]
      simp only [List.headD_eq_head?_getD, List.head?_nil, Option.getD_none, reduceIte,
        List.append_nil]
      rfl

omit hContent in
/-- The command `patch` with one file as its operand applies the hunks of all sections to it. -/
theorem run_patch (hPath : path.head? ≠ some (chr '-')) {text : Text} {sections : List Patch.Section}
    (hParse : Patch.parse text = .ok sections) :
    (patch.run [.plain path] (some text)).run.run session =
      (patchFile [] false (path, (Patch.joinSections sections).hunks)).run.run session := by
  have hSome : path ≠ [] := by
    rintro rfl
    cases hFound
  have hNamed : named ((Arguments.mk [] [("file", [path])]).word? "file") = [path] := by
    change named (some path) = [path]
    cases path with
    | nil => exact absurd rfl hSome
    | cons c path => rfl
  have hText : (patchText ⟨[], [("file", [path])]⟩ (some text)).run.run session =
      (.ok text, session) := rfl
  have hSections : (Action.ofExcept (Patch.parse text)).run.run session = (.ok sections, session) := by
    rw [hParse]
    rfl
  have hHunks : sections.flatMap Patch.Section.hunks = (Patch.joinSections sections).hunks := by
    cases sections <;> rfl
  rw [patch, filter, run_prepared (read_patch hPath), Action.run_bind_ok hText,
    Action.run_bind_ok hSections, hNamed, ← hHunks]
  change ((patchFile [] false (path, sections.flatMap Patch.Section.hunks) >>=
    fun report => pure [report]) >>= fun reports => pure (Text.joinLines reports)).run.run session = _
  rw [Action.run_bind, Action.run_bind]
  obtain ⟨outcome, later, hRun⟩ : ∃ outcome later, (patchFile [] false (path,
    sections.flatMap Patch.Section.hunks)).run.run session = (outcome, later) := ⟨_, _, rfl⟩
  rw [hRun]
  cases outcome <;> rfl

theorem readFile_setContent (now : Instant) (text : Text) :
    (session.volume.setContent now found text).readFile path = .ok text := by
  have hShape := Volume.sameShape_setContent now hContent text
  have hText : (session.volume.setContent now found text).content? found = some text := by
    obtain ⟨node, hNode, _⟩ := Option.bind_eq_some_iff.mp hContent
    rw [Volume.content?, Volume.setContent, Volume.get?_update, if_pos rfl, hNode]
    rfl
  simp only [Volume.readFile, hShape.lookup_eq, hFound, ok_bind, hText]
  rfl

end Patch

/-- What a file holds after it has been patched with its difference from another one. -/
def contentAfter (session : Session) (form : Diff.Format) (file1 file2 : Text) :
    Except Fault Text :=
  match (diff.run ((formWords form ++ [file1, file2]).map .plain) none).run.run session with
  | (.ok text, later) =>
      ((patch.run [.plain file1] (some text)).run.run later).2.volume.readFile file1
  | (.error fault, _) => .error fault

section Exchange

variable {session : Session} {file1 file2 content1 content2 : Text}
  (hFile1 : session.volume.readFile file1 = .ok content1)
  (hFile2 : session.volume.readFile file2 = .ok content2)
  (hDash1 : file1.head? ≠ some (chr '-')) (hDash2 : file2.head? ≠ some (chr '-'))
include hFile1 hFile2 hDash1 hDash2

/-- The file holds what comes out of the hunks, or what it held if one of them fails. -/
theorem contentAfter_eq {form : Diff.Format} {sections : List Patch.Section}
    (hParse : Patch.parse (Diff.diffTexts ⟨.exact, form, Diff.defaultContext, false⟩
      (Text.lines content1) (Text.lines content2) file1 file2) = .ok sections) :
    contentAfter session form file1 file2 =
      match Patch.apply (Text.lines content1) (Patch.joinSections sections).hunks false
        Patch.defaultMaxOffset with
      | (_, .ok result) => .ok (endedLike content1 (Text.joinLines result))
      | (_, .error _) => .ok content1 := by
  obtain ⟨found, hFound, hContent⟩ := lookup_of_readFile hFile1
  obtain ⟨other, hOther, hContent2⟩ := lookup_of_readFile hFile2
  have hDiff := run_diff form hDash1 hDash2 (contentOf_of_lookup hFound hContent)
    (contentOf_of_lookup hOther hContent2) none
  simp only [contentAfter, hDiff, run_patch hFound hDash1 hParse, run_patchFile hFound hContent]
  split
  · exact readFile_setContent hFound hContent session.now _
  · exact hFile1

variable (hName1 : chr '\n' ∉ file1) (hName2 : chr '\n' ∉ file2)
  (hEnd1 : content1.getLast? = some (chr '\n')) (hEnd2 : content2.getLast? = some (chr '\n'))
  (hDiffer : Text.lines content1 ≠ Text.lines content2)
include hName1 hName2 hEnd1 hEnd2 hDiffer

/-- If no line ends in a carriage return, the file is made equal to the other one, except that
a single empty line is taken for no line at all. -/
theorem contentAfter_of_lines (form : Diff.Format)
    (hLines : ∀ line ∈ Text.lines content1 ++ Text.lines content2, Patch.endsInReturn line = false) :
    contentAfter session form file1 file2 = .ok (if content2 = [chr '\n'] then [] else content2) := by
  have hLine {content : Text} (hContent : ∀ line ∈ Text.lines content,
      Patch.endsInReturn line = false) : ∀ line ∈ Text.lines content, Patch.IsLine line := by
    intro line hMem
    exact ⟨Text.not_mem_of_mem_lines hMem, by simpa [Patch.endsInReturn] using hContent line hMem⟩
  obtain ⟨sections, hParse, hApply⟩ := Patch.exists_apply_diffTexts form Diff.defaultContext hDiffer
    (hLine fun line hMem => hLines line (List.mem_append_left _ hMem))
    (hLine fun line hMem => hLines line (List.mem_append_right _ hMem)) hName1 hName2
  have hJoined : Text.joinLines (Text.lines content2) = content2.dropLast := by
    rw [Text.lines_of_ended hEnd2, Text.joinLines_splitOn]
  rw [contentAfter_eq hFile1 hFile2 hDash1 hDash2 hParse, hApply]
  dsimp only
  obtain ⟨front, rfl⟩ := List.getLast?_eq_some_iff.mp hEnd2
  rw [hJoined, endedLike_of_ended hEnd1, List.dropLast_concat]
  cases front <;> simp

/-- Hunks have no line that ends in a carriage return, and so the file cannot be made equal to
one that has other such lines. -/
theorem contentAfter_ne_of_returns (form : Diff.Format)
    (hLines : ∀ line ∈ Text.lines content1 ++ Text.lines content2,
      Patch.endsInReturn (Text.dropFinal (chr '\r') line) = false)
    (hReturns : (Text.lines content1).filter Patch.endsInReturn ≠
      (Text.lines content2).filter Patch.endsInReturn) :
    contentAfter session form file1 file2 ≠ .ok content2 := by
  have hOnce {content : Text} (hContent : ∀ line ∈ Text.lines content,
      Patch.endsInReturn (Text.dropFinal (chr '\r') line) = false) :
      ∀ line ∈ Text.lines content, Patch.EndsOnce line := by
    intro line hMem
    have hBreak := Text.not_mem_of_mem_lines hMem
    refine ⟨hBreak, fun hFinal => hBreak ?_, by simpa [Patch.endsInReturn] using hContent line hMem⟩
    rw [Text.dropFinal] at hFinal
    split at hFinal
    · exact List.dropLast_subset line hFinal
    · exact hFinal
  obtain ⟨sections, hParse, hApply⟩ := Patch.exists_filter_diffTexts form Diff.defaultContext hDiffer
    (hOnce fun line hMem => hLines line (List.mem_append_left _ hMem))
    (hOnce fun line hMem => hLines line (List.mem_append_right _ hMem)) hName1 hName2
  rw [contentAfter_eq hFile1 hFile2 hDash1 hDash2 hParse]
  split
  · rename_i warnings result hResult
    obtain ⟨hBreaks, hKept⟩ := hApply _ _ _ hResult
    rw [endedLike_of_ended hEnd1]
    intro hSame
    cases hSame
    apply hReturns
    by_cases hNone : Text.joinLines result = []
    · rw [if_pos hNone] at hEnd2
      cases hEnd2
    · obtain ⟨line, rest, rfl⟩ : ∃ line rest, result = line :: rest := by
        cases result with
        | nil => exact absurd rfl hNone
        | cons line rest => exact ⟨line, rest, rfl⟩
      rw [if_neg hNone] at hEnd2 ⊢
      rw [Text.lines_of_ended hEnd2, List.dropLast_concat, Text.splitOn_joinLines hBreaks, hKept]
  · intro hSame
    cases hSame
    exact hDiffer rfl

end Exchange

/-- Patching a file with its difference from another one, in any form. Without carriage
returns the file holds what the other one holds, a single empty line apart; if the lines that
end in one carriage return differ, it never does. -/
theorem contentAfter_diff_patch {session : Session} {file1 file2 content1 content2 : Text}
    (hFile1 : session.volume.readFile file1 = .ok content1)
    (hFile2 : session.volume.readFile file2 = .ok content2)
    (hDash1 : file1.head? ≠ some (chr '-')) (hDash2 : file2.head? ≠ some (chr '-'))
    (hName1 : chr '\n' ∉ file1) (hName2 : chr '\n' ∉ file2)
    (hEnd1 : content1.getLast? = some (chr '\n')) (hEnd2 : content2.getLast? = some (chr '\n'))
    (hDiffer : Text.lines content1 ≠ Text.lines content2) (form : Diff.Format) :
    ((∀ line ∈ Text.lines content1 ++ Text.lines content2, Patch.endsInReturn line = false) →
      contentAfter session form file1 file2 =
        .ok (if content2 = [chr '\n'] then [] else content2)) ∧
    ((∀ line ∈ Text.lines content1 ++ Text.lines content2,
        Patch.endsInReturn (Text.dropFinal (chr '\r') line) = false) →
      (Text.lines content1).filter Patch.endsInReturn ≠
        (Text.lines content2).filter Patch.endsInReturn →
      contentAfter session form file1 file2 ≠ .ok content2) :=
  ⟨contentAfter_of_lines hFile1 hFile2 hDash1 hDash2 hName1 hName2 hEnd1 hEnd2 hDiffer form,
    contentAfter_ne_of_returns hFile1 hFile2 hDash1 hDash2 hName1 hName2 hEnd1 hEnd2 hDiffer form⟩

/-- A session with two files, `/a` and `/b`. -/
def twoFiles (first second : Text) : Session :=
  .start ⟨#[some ⟨[], none, .origin, .origin, .directory [("a", 1), ("b", 2)]⟩,
    some ⟨"a", some 0, .origin, .origin, .file first⟩,
    some ⟨"b", some 0, .origin, .origin, .file second⟩], Volume.root⟩ .empty .origin

theorem readFile_first (first second : Text) :
    (twoFiles first second).volume.readFile [chr '/', chr 'a'] = .ok first := rfl

theorem readFile_second (first second : Text) :
    (twoFiles first second).volume.readFile [chr '/', chr 'b'] = .ok second := rfl

theorem contentAfter_diff_patch_lines :
    contentAfter (twoFiles "a\n\nb\n" "\nb\nc\n") .context "/a" "/b" = .ok "\nb\nc\n" :=
  (contentAfter_diff_patch (readFile_first _ _) (readFile_second _ _) (by decide) (by decide)
    (by decide) (by decide) (by decide) (by decide) (by decide) .context).1 (by decide)

/-- A file that is to become one empty line is left empty, and one whose lines end in carriage
returns does not become what it should. -/
theorem unrestored_files :
    contentAfter (twoFiles "a\n" "\n") .normal "/a" "/b" = .ok [] ∧
      contentAfter (twoFiles "a\r\n" "b\r\n") .normal "/a" "/b" ≠ .ok "b\r\n" := by
  constructor
  · exact contentAfter_of_lines (readFile_first _ _) (readFile_second _ _) (by decide) (by decide)
      (by decide) (by decide) (by decide) (by decide) (by decide) .normal (by decide)
  · exact contentAfter_ne_of_returns (readFile_first _ _) (readFile_second _ _) (by decide)
      (by decide) (by decide) (by decide) (by decide) (by decide) (by decide) .normal (by decide)
      (by decide)

end Builtin

end TreeShell
