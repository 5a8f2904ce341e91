import TreeShell.Builtin.All
import TreeShell.Proofs.Builtin.Basic
import TreeShell.Proofs.Shell.Pipeline
import TreeShell.Proofs.Shell.Quoting
import TreeShell.Proofs.Text.Order
import TreeShell.Proofs.Volume.History

/-! The commands `sort` and `uniq`. Lines that are sorted stand in runs, so that dropping the lines
that have been seen and dropping repeated neighbours come to the same. The main statement is
`execute_sort_uniq`. -/
namespace TreeShell.Builtin

open Options

section Lines

variable (mark : Text → Text)

/-- The first run begins with the first line. -/
theorem exists_runs_cons (line : Text) (rest : List Text) :
    ∃ count later, runs mark (line :: rest) = (line, count) :: later := by
  rw [runs]
  split
  · exact ⟨_, _, rfl⟩
  · split <;> exact ⟨_, _, rfl⟩

/-- Among sorted lines, one that is marked like an earlier one is marked like the one before it. -/
theorem map_runs_cons {first : Text} {rest seen : List Text}
    (hSorted : (first :: rest).Pairwise fun s t => Text.le (mark s) (mark t) = true)
    (hSeen : ∀ s ∈ seen, Text.le s (mark first) = true) :
    (runs mark (first :: rest)).map Prod.fst =
      first :: firstOfEach mark (mark first :: seen) rest := by
  induction rest generalizing first seen with
  | nil => rfl
  | cons next rest ih =>
      obtain ⟨hFirst, hRest⟩ := List.pairwise_cons.mp hSorted
      have hNext : Text.le (mark first) (mark next) = true := hFirst next List.mem_cons_self
      have hBelow : ∀ s ∈ seen, Text.le s (mark next) = true :=
        fun s hs => Text.le_trans (hSeen s hs) hNext
      obtain ⟨count, later, hRuns⟩ := exists_runs_cons mark next rest
      have hLater {seen : List Text} (hSeen : ∀ s ∈ seen, Text.le s (mark next) = true) :
          later.map Prod.fst = firstOfEach mark (mark next :: seen) rest := by
        have hAll := ih hRest hSeen
        rw [hRuns] at hAll
        exact (List.cons.inj hAll).2
      rw [runs, hRuns]
      dsimp only
      by_cases hSame : mark next = mark first
      · rw [if_pos hSame, List.map_cons, hLater hBelow, hSame, firstOfEach, hSame,
          if_pos (by simp)]
      · have hNew : mark next ∉ mark first :: seen := by
          rw [List.mem_cons, not_or]
          exact ⟨hSame, fun hs => hSame (Text.le_antisymm (hSeen _ hs) hNext)⟩
        rw [if_neg hSame, List.map_cons, List.map_cons,
          hLater (List.forall_mem_cons.mpr ⟨hNext, hBelow⟩), firstOfEach,
          if_neg (by simpa using hNew)]

/-- Dropping repeated neighbours from sorted lines leaves the first of each. -/
theorem map_runs {lines : List Text}
    (hSorted : lines.Pairwise fun s t => Text.le (mark s) (mark t) = true) :
    (runs mark lines).map Prod.fst = firstOfEach mark [] lines := by
  cases lines with
  | nil => rfl
  | cons first rest => exact map_runs_cons mark hSorted (List.forall_mem_nil _)

end Lines

/-- Sorting without a switch is sorting by code points. -/
theorem sortLines_plain (lines : List Text) :
    sortLines (sortKey false false) false lines = lines.mergeSort Text.le := by
  have hKey (s t : Text) : SortKey.le (sortKey false false s) (sortKey false false t) =
      Text.le s t := by
    simp [SortKey.le, sortKey]
  have hOrder : ∀ a ∈ lines.map fun line => (sortKey false false line, line),
      ∀ b ∈ lines.map fun line => (sortKey false false line, line),
        SortKey.le a.1 b.1 = Text.le a.2 b.2 := by
    simp only [List.forall_mem_map]
    exact fun s _ t _ => hKey s t
  rw [sortLines, if_neg Bool.false_ne_true, List.map_mergeSort hOrder, List.map_map]
  exact congrArg (List.mergeSort · Text.le) (List.map_id lines)

section FirstOfEach

/-- Keeping the first of each line keeps every line that was not seen before. -/
theorem mem_firstOfEach {line : Text} {seen lines : List Text} :
    line ∈ firstOfEach (foldCase false) seen lines ↔ line ∈ lines ∧ line ∉ seen := by
  induction lines generalizing seen with
  | nil => simp [firstOfEach]
  | cons first lines ih =>
      have hMark : foldCase false first = first := rfl
      simp only [firstOfEach, hMark, List.contains_iff_mem]
      split
      · rename_i hSeen
        rw [ih, List.mem_cons]
        constructor
        · exact fun h => ⟨Or.inr h.1, h.2⟩
        · intro h
          refine ⟨h.1.resolve_left ?_, h.2⟩
          rintro rfl
          exact h.2 hSeen
      · rename_i hNew
        rw [List.mem_cons, ih, List.mem_cons, List.mem_cons, not_or]
        by_cases hSame : line = first
        · simp [hSame, hNew]
        · simp [hSame]

theorem firstOfEach_sublist (mark : Text → Text) (seen lines : List Text) :
    (firstOfEach mark seen lines).Sublist lines := by
  induction lines generalizing seen with
  | nil => exact .slnil
  | cons first lines ih =>
      rw [firstOfEach]
      split
      · exact (ih _).cons first
      · exact (ih _).cons_cons first

/-- Where case is not folded, no line is kept twice. -/
theorem nodup_firstOfEach (seen lines : List Text) :
    (firstOfEach (foldCase false) seen lines).Nodup := by
  induction lines generalizing seen with
  | nil => exact List.nodup_nil
  | cons first lines ih =>
      rw [firstOfEach]
      split
      · exact ih seen
      · refine List.nodup_cons.mpr ⟨fun hMem => ?_, ih _⟩
        exact (mem_firstOfEach.mp hMem).2 List.mem_cons_self

end FirstOfEach

/-- The lines of a text, each of them once, in order. -/
def distinctLines (t : Text) : List Text :=
  firstOfEach (foldCase false) [] ((Text.lines t).mergeSort Text.le)

theorem mem_distinctLines {t line : Text} : line ∈ distinctLines t ↔ line ∈ Text.lines t := by
  rw [distinctLines, mem_firstOfEach, List.mem_mergeSort]
  simp

/-- The distinct lines are in strictly increasing order. -/
theorem pairwise_distinctLines (t : Text) :
    (distinctLines t).Pairwise fun r s => Text.compare r s = .lt := by
  have hSorted := (Text.pairwise_le_mergeSort (Text.lines t)).sublist
    (firstOfEach_sublist (foldCase false) [] _)
  refine (hSorted.and (nodup_firstOfEach [] _)).imp fun hBoth => ?_
  exact (Text.le_iff.mp hBoth.1).resolve_left hBoth.2

/-- All lines being empty, one empty line is kept, and printed as no text at all. -/
theorem joinLines_firstOfEach_empty {lines : List Text} (h : ∀ line ∈ lines, line = []) :
    Text.joinLines (firstOfEach (foldCase false) [] lines) = [] := by
  cases lines with
  | nil => rfl
  | cons first rest =>
      obtain ⟨rfl, hRest⟩ := List.forall_mem_cons.mp h
      have hNone : firstOfEach (foldCase false) [[]] rest = [] := by
        rw [List.eq_nil_iff_forall_not_mem]
        intro line hMem
        obtain ⟨hLine, hNew⟩ := mem_firstOfEach.mp hMem
        exact hNew (List.mem_singleton.mpr (hRest line hLine))
      change Text.joinLines ([] :: firstOfEach (foldCase false) [[]] rest) = []
      rw [hNone]
      rfl

/-- Sorted lines are joined and divided again without a loss that shows: an empty line at the end is
lost, but there it stands only when all lines are empty. -/
theorem joinLines_runs (t : Text) :
    Text.joinLines ((runs (foldCase false) (Text.lines (Text.joinLines
      ((Text.lines t).mergeSort Text.le)))).map Prod.fst) = Text.joinLines (distinctLines t) := by
  have hSorted := Text.pairwise_le_mergeSort (Text.lines t)
  have hBreaks : ∀ line ∈ (Text.lines t).mergeSort Text.le, chr '\n' ∉ line :=
    fun line hLine => Text.not_mem_of_mem_lines (List.mem_mergeSort.mp hLine)
  rw [distinctLines, Text.lines_joinLines hBreaks]
  generalize (Text.lines t).mergeSort Text.le = sorted at hSorted
  split
  · rename_i hLast
    obtain ⟨front, rfl⟩ := List.getLast?_eq_some_iff.mp hLast
    obtain ⟨hFront, _, hBelow⟩ := List.pairwise_append.mp hSorted
    have hEmpty : ∀ line ∈ front, line = [] :=
      fun line hLine => Text.eq_nil_of_le (hBelow line hLine [] List.mem_cons_self)
    have hAll : ∀ line ∈ front ++ [[]], line = [] := by
      simpa [or_imp, forall_and] using hEmpty
    rw [List.dropLast_concat, map_runs (foldCase false) hFront, joinLines_firstOfEach_empty hEmpty,
      joinLines_firstOfEach_empty hAll]
  · rw [map_runs (foldCase false) hSorted]

section Commands

variable {path : Text} (hDash : path.head? ≠ some (chr '-'))
include hDash

theorem read_sort : sortSpec.read [path] = .ok (.work ⟨[], [("files", [path])]⟩) := by
  have hWords : ∀ word ∈ [path], word.head? ≠ some (chr '-') := by simpa using hDash
  have hServed : serveMost [.many] [false] = [1] := by decide
  exact Spec.read_eq (readWords_held sortSpec sortSpec.operands [] hWords) hWords hServed
    (Nat.le_refl 1) (hand_each rfl hWords)

theorem read_sort_unique :
    sortSpec.read ["-u", path] = .ok (.work ⟨[("-u", .on)], [("files", [path])]⟩) := by
  have hWords : ∀ word ∈ [path], word.head? ≠ some (chr '-') := by simpa using hDash
  have hServed : serveMost [.many] [false] = [1] := by decide
  have hFind : sortSpec.find? "-u" =
      some (.flag ["-u", "--unique"] "Output only the first of equal lines") := rfl
  have hFlag := readWords_flag hFind rfl rfl (by decide) (sortSpec.operands.map Operand.held) [] [path]
  have hHeld := readWords_held sortSpec sortSpec.operands [("-u", .on)] hWords
  exact Spec.read_eq (hFlag.trans hHeld) hWords hServed (Nat.le_refl 1) (hand_each rfl hWords)

variable {session : Session} {content : Text} (hContent : session.volume.contentOf path = .ok content)
include hContent

/-- The command sorts the lines of the file and leaves the session as it is. -/
theorem run_sort : (sort.run [Word.quoted path] none).run.run session =
    (.ok (Text.joinLines ((Text.lines content).mergeSort Text.le)), session) := by
  have hFiles : (Arguments.mk [] [("files", [path])]).words "files" = [path] := rfl
  rw [sort, filter, run_prepared (read_sort hDash), hFiles,
    Action.run_bind_ok (run_inputs "sort" hContent)]
  change (Except.ok (Text.joinLines (sortLines (sortKey false false) false
    (Text.lines content ++ []))), session) = _
  rw [List.append_nil, sortLines_plain]

/-- With the option it keeps one of each line. -/
theorem run_sort_unique : (sort.run [Word.quoted "-u", Word.quoted path] none).run.run session =
    (.ok (Text.joinLines (distinctLines content)), session) := by
  have hFiles : (Arguments.mk [("-u", .on)] [("files", [path])]).words "files" = [path] := rfl
  rw [sort, filter, run_prepared (read_sort_unique hDash), hFiles,
    Action.run_bind_ok (run_inputs "sort" hContent)]
  change (Except.ok (Text.joinLines (firstOfEach (foldCase false) []
    (sortLines (sortKey false false) false (Text.lines content ++ [])))), session) = _
  rw [List.append_nil, sortLines_plain, distinctLines]

end Commands

/-- What is piped into `uniq` is its only input. -/
theorem run_uniq (content : Text) (session : Session) :
    (uniq.run [] (some content)).run.run session =
      (.ok (Text.joinLines ((runs (foldCase false) (Text.lines content)).map Prod.fst)), session) := by
  have hRead : uniqSpec.read [] = .ok (.work ⟨[], [("file", [])]⟩) := rfl
  rw [uniq, filter, run_prepared hRead]
  change (Except.ok (Text.joinLines (((runs (foldCase false) (Text.lines content ++ [])).filter
    fun _ => true).map Prod.fst)), session) = _
  rw [List.append_nil, List.filter_true]

section Words

variable {session : Session} {path content : Text} (hDash : path.head? ≠ some (chr '-'))
  (hContent : session.volume.contentOf path = .ok content)
include hDash hContent

/-- The one command writes the distinct lines in order. -/
theorem run_words_sorted :
    (registry.runSegments
      (Segment.group [.quoted "sort", .quoted "-u", .quoted path])).run.run session =
      (.ok (Text.joinLines (distinctLines content)), { session with exitCode := 0 }) := by
  have hPlain : ∀ w ∈ [Word.quoted "sort", .quoted "-u", .quoted path], w.operator? = none := by
    simp [Word.operator?_quoted]
  have hFind : registry.find "sort" = .ok sort := rfl
  have hDispatch := (registry.run_dispatch_quoted hFind ["-u", path] session).trans
    (run_sort_unique hDash hContent)
  rw [Segment.group_of_plain hPlain (List.cons_ne_nil _ _), registry.runSegments_of_plain hPlain]
  exact (Action.run_bind_ok hDispatch _).trans rfl

/-- The output of the first command is the input of the second, which gets the lines in order. -/
theorem run_words_piped :
    (registry.runSegments
      (Segment.group [.quoted "sort", .quoted path, .plain "|", .quoted "uniq"])).run.run session =
      (.ok (Text.joinLines (distinctLines content)), { session with exitCode := 0 }) := by
  have hPlain : ∀ w ∈ [Word.quoted "sort", .quoted path], w.operator? = none := by
    simp [Word.operator?_quoted]
  have hPiped : Segment.group [.quoted "sort", .quoted path, .plain "|", .quoted "uniq"] =
      Segment.piped [[.quoted "sort", .quoted path], [.quoted "uniq"]] := by
    have hJoint : (Word.plain "|").joint? = some .pipe := rfl
    exact congrArg Segment.closeLast (Segment.groupFrom_of_joint hPlain hJoint [] [.quoted "uniq"]
      (Or.inr (List.cons_ne_nil _ _)))
  have hSort : registry.find "sort" = .ok sort := rfl
  have hFirst := (registry.run_dispatch_quoted hSort [path] session).trans
    (run_sort hDash hContent)
  have hUniq : registry.find (Word.quoted "uniq").text = .ok uniq := rfl
  have hSecond (input : Text) := (registry.run_dispatch_input hUniq [] (some input) session).trans
    (run_uniq input session)
  have hTaken : takeRedirections [.quoted "uniq"] = .ok ([.quoted "uniq"], []) := rfl
  have hFlows := Registry.Flows.stage (takeRedirections_of_plain hPlain) hFirst
    (.stage hTaken (hSecond _) (.done _ session))
  rw [joinLines_runs] at hFlows
  rw [hPiped]
  exact hFlows.run_runFrom (Or.inl (Or.inl ⟨rfl, rfl⟩))

end Words

theorem isBare_names : IsBare "sort" ∧ IsBare "-u" ∧ IsBare "uniq" := by
  decide

section Executed

variable (maxDepth : Int) {session : Session} {path content written : Text}
  (hDash : path.head? ≠ some (chr '-')) (hContent : session.volume.contentOf path = .ok content)
  (hWritten : Spells written path)
include hDash hContent hWritten

/-- The line with the option prints the distinct lines of the file in order. -/
theorem execute_sorted :
    ((Shell.mk registry maxDepth).execute ("sort -u " ++ written)).run.run session =
      (.ok (Text.joinLines (distinctLines content)), { session with
        exitCode := 0
        warnings := session.warnings ++
          (Shell.mk registry maxDepth).depthWarnings ("sort -u " ++ written) }) := by
  obtain ⟨hSort, hUnique, _⟩ := isBare_names
  have hRead : List.Forall₂ ReadsAs ["sort", "-u", written]
      [.quoted "sort", .quoted "-u", .quoted path] :=
    .cons (.word (.bare hSort)) (.cons (.word (.bare hUnique)) (.cons (.word hWritten) .nil))
  have hStraight : ReadsStraight ("sort -u " ++ written) _ :=
    readsStraight_spacedLine hRead (List.cons_ne_nil _ _)
  rw [Shell.run_execute_of_straight _ hStraight rfl
    (ForLoop.ofLine?_of_head (by decide) (by decide) _), run_words_sorted hDash]
  · rfl
  · exact hContent

/-- The line with the pipe prints the same: sorted lines have their repetitions next to each other.
-/
theorem execute_piped :
    ((Shell.mk registry maxDepth).execute ("sort " ++ written ++ " | uniq")).run.run session =
      (.ok (Text.joinLines (distinctLines content)), { session with
        exitCode := 0
        warnings := session.warnings ++
          (Shell.mk registry maxDepth).depthWarnings ("sort " ++ written ++ " | uniq") }) := by
  obtain ⟨hSort, _, hUniq⟩ := isBare_names
  have hRead : List.Forall₂ ReadsAs ["sort", written, "|", "uniq"]
      [.quoted "sort", .quoted path, .plain "|", .quoted "uniq"] :=
    .cons (.word (.bare hSort)) (.cons (.word hWritten)
      (.cons .pipe (.cons (.word (.bare hUniq)) .nil)))
  have hStraight := readsStraight_spacedLine hRead (List.cons_ne_nil _ _)
  have hLine : spacedLine ["sort", written, "|", "uniq"] = "sort " ++ written ++ " | uniq" := by
    simp [spacedLine, Text.join]
  rw [hLine] at hStraight
  rw [Shell.run_execute_of_straight _ hStraight rfl
    (ForLoop.ofLine?_of_head (by decide) (by decide) _), run_words_piped hDash]
  · rfl
  · exact hContent

end Executed

/-- What is sorted and piped into `uniq` is what `sort -u` gives, for every content of a file and
however its path is written: each line of the content once, in order. -/
theorem execute_sort_uniq (maxDepth : Int) {session : Session} {path content written : Text}
    (hFile : session.volume.readFile path = .ok content) (hDash : path.head? ≠ some (chr '-'))
    (hWritten : Spells written path) :
    let shell := Shell.mk registry maxDepth
    let after (line : Text) := { session with
      exitCode := 0, warnings := session.warnings ++ shell.depthWarnings line }
    let piped := "sort " ++ written ++ " | uniq"
    let sorted := "sort -u " ++ written
    (shell.execute piped).run.run session =
      (.ok (Text.joinLines (distinctLines content)), after piped) ∧
    (shell.execute sorted).run.run session =
      (.ok (Text.joinLines (distinctLines content)), after sorted) ∧
    ((distinctLines content).Pairwise fun s t => Text.compare s t = .lt) ∧
    ∀ line, line ∈ distinctLines content ↔ line ∈ Text.lines content := by
  obtain ⟨found, hFound, hText⟩ := lookup_of_readFile hFile
  have hContent := contentOf_of_lookup hFound hText
  exact ⟨execute_piped maxDepth hDash hContent hWritten,
    execute_sorted maxDepth hDash hContent hWritten, pairwise_distinctLines content,
    fun _ => mem_distinctLines⟩

/-- Empty lines between and behind others, and a path between quotes. -/
theorem execute_sort_uniq_blank :
    let v := (Volume.fresh .origin).after [(.origin, .writeFile "/a b" "b\n\na\nb\n\n" false)]
    let session := Session.start v .empty .origin
    let shell := Shell.mk registry Shell.defaultMaxDepth
    v.readFile "/a b" = .ok "b\n\na\nb\n\n" ∧
      (shell.execute "sort \"/a b\" | uniq").run.run session = (.ok "\na\nb", session) ∧
      (shell.execute "sort -u \"/a b\"").run.run session = (.ok "\na\nb", session) := by
  intro v session shell
  have hFile : session.volume.readFile "/a b" = .ok "b\n\na\nb\n\n" := rfl
  obtain ⟨hPiped, hSorted, _⟩ :=
    execute_sort_uniq Shell.defaultMaxDepth hFile (by decide) (.quoted .double "/a b")
  have hOrder : (Text.lines "b\n\na\nb\n\n").mergeSort Text.le = ["", "", "a", "b", "b"] :=
    List.Perm.eq_of_pairwise (fun _ _ _ _ => Text.le_antisymm) (Text.pairwise_le_mergeSort _)
      (by decide) ((List.mergeSort_perm _ _).trans (by decide))
  have hLines : distinctLines "b\n\na\nb\n\n" = ["", "a", "b"] := by
    rw [distinctLines, hOrder]
    rfl
  rw [hLines] at hPiped hSorted
  exact ⟨hFile, hPiped, hSorted⟩

end TreeShell.Builtin
