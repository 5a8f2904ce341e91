import TreeShell.Builtin.Search
import TreeShell.Proofs.Builtin.Basic
import TreeShell.Proofs.Volume.Naming
import TreeShell.Proofs.Volume.Walk

/-! The command `find` beside the walk of a volume. What is found below a starting point is the walk
from there, each path joined with the starting point, as far as inodes are wanted and paths have no
more segments than are asked for. The main statement is `find_walk`. -/
namespace TreeShell.Builtin

open Options
open Volume (Forest ChildNamed Sound Shallow)

/-- Whether a level is among those that are asked for. -/
def isWithin (maxDepth : Option Int) (level : Nat) : Bool := maxDepth.all ((level : Int) ≤ ·)

theorem isWithin_none (level : Nat) : isWithin none level = true := rfl

theorem isWithin_natCast (n level : Nat) : isWithin (some (n : Int)) level = decide (level ≤ n) := by
  simp [isWithin]

/-- Where the walk is not pruned, the next level is still within the depth. -/
theorem isWithin_succ {maxDepth : Option Int} {level : Nat}
    (h : maxDepth.any (· ≤ (level : Int)) = false) : isWithin maxDepth (level + 1) = true := by
  cases maxDepth with
  | none => rfl
  | some last =>
      simp only [Option.any_some, decide_eq_false_iff_not] at h
      simp only [isWithin, Option.all_some, decide_eq_true_eq]
      omega

/-- Below a pruned level nothing is within the depth. -/
theorem isWithin_of_pruned {maxDepth : Option Int} {level deeper : Nat}
    (h : maxDepth.any (· ≤ (level : Int)) = true) (hDeeper : level < deeper) :
    isWithin maxDepth deeper = false := by
  cases maxDepth with
  | none => cases h
  | some last =>
      simp only [Option.any_some, decide_eq_true_eq] at h
      simp only [isWithin, Option.all_some, decide_eq_false_iff_not]
      omega

/-- The lead of a child is its directory, joined with its name. -/
theorem lead_append {path : Text} (hSlash : path.getLast? = some (chr '/') → path = [chr '/']) (name : Text) :
    (if path.getLast? = some (chr '/') then path else path ++ [chr '/']) ++ name = Path.append path name := by
  by_cases hLast : path.getLast? = some (chr '/')
  · rw [hSlash hLast]
    rfl
  · rw [if_neg hLast, Path.append_of_no_slash hLast, List.append_assoc]
    rfl

/-- The paths of what a walk meets, joined with the path that it begins at, as far as inodes are
wanted and levels asked for. -/
def reported (v : Volume) (wanted : Inode → Bool) (maxDepth : Option Int) (depth : Nat) (path : Text)
    (met : List (Text × InodeId)) : List Text :=
  (met.filter fun found => (v.get? found.2).any wanted &&
    isWithin maxDepth (depth + Path.segments found.1)).map fun found => Path.append path found.1

section Reported

variable {v : Volume} {wanted : Inode → Bool} {maxDepth : Option Int} {depth : Nat} {path : Text}

/-- Nothing is reported below a level that is not passed. -/
theorem reported_of_pruned (h : maxDepth.any (· ≤ (depth : Int)) = true)
    (met : List (Text × InodeId)) : reported v wanted maxDepth depth path met = [] := by
  rw [reported, List.map_eq_nil_iff, List.filter_eq_nil_iff]
  intro found _
  have hDeeper := Path.segments_pos found.1
  rw [isWithin_of_pruned h (by omega), Bool.and_false]
  exact Bool.false_ne_true

/-- A child is reported, and what is below it as from there. -/
theorem reported_child (h : maxDepth.any (· ≤ (depth : Int)) = false) {name : Text}
    (hName : Path.IsChildName name) (child : InodeId) (met : List (Text × InodeId)) :
    reported v wanted maxDepth depth path
        ((name, child) :: met.map fun found => (name ++ chr '/' :: found.1, found.2)) =
      (if (v.get? child).any wanted then [Path.append path name] else []) ++
        reported v wanted maxDepth (depth + 1) (Path.append path name) met := by
  have hSum (below : Text) :
      depth + (Path.segments below + 1) = depth + 1 + Path.segments below := by omega
  simp only [reported, List.filter_cons, List.filter_map, Function.comp_def,
    Path.segments_of_isChildName hName, Path.segments_cons hName, hSum, isWithin_succ h,
    Bool.and_true, Path.append_append hName]
  split <;> simp

end Reported

section Find

variable {v : Volume} (h : Forest [] v) (hNamed : ChildNamed v)
include h hNamed

/-- What is found at and below an inode is what a walk meets there. -/
theorem findWithin_eq (wanted : Inode → Bool) (maxDepth : Option Int) {bound depth : Nat}
    {path : Text} {id : InodeId} (hShallow : Shallow v bound id)
    (hSlash : path.getLast? = some (chr '/') → path = [chr '/']) :
    findWithin v wanted maxDepth bound depth path id =
      (if (v.get? id).any wanted then [path] else []) ++
        reported v wanted maxDepth depth path (v.walkWithin bound [] id) := by
  induction bound generalizing depth path id with
  | zero => exact absurd (hShallow 0 id .here) (Nat.not_lt_zero 0)
  | succ bound ih =>
      rw [h.walkWithin_succ hNamed]
      cases hNode : v.get? id with
      | none =>
          have hEntries : v.entries id = [] := by rw [Volume.entries, hNode]
          simp [findWithin, hNode, hEntries, reported]
      | some node =>
          have hEntries : v.entries id = node.entries := by rw [Volume.entries, hNode]
          simp only [findWithin, hNode, Option.any_some]
          congr 1
          cases hPruned : maxDepth.any (· ≤ (depth : Int)) with
          | true => rw [if_pos rfl, reported_of_pruned hPruned]
          | false =>
              rw [if_neg Bool.false_ne_true, ← hEntries, reported, List.filter_flatMap,
                List.map_flatMap]
              refine List.flatMap_congr fun entry hEntry => ?_
              obtain ⟨name, child⟩ := entry
              have hName := hNamed id name child hEntry
              have hLast : (Path.append path name).getLast? ≠ some (chr '/') := hName.getLast?_append path
              dsimp only
              rw [lead_append hSlash, (h.entry id name child hEntry).2.2.1,
                ih (hShallow.child hEntry) fun hFinal => absurd hFinal hLast]
              exact (reported_child hPruned hName child _).symm

section From

variable (arguments : Arguments) {start : Text} {top : InodeId} (hStart : v.lookup start = .ok top)
  (hTop : v.isDirectory top = true) (hSlash : start.getLast? = some (chr '/') → start = [chr '/'])
include hStart hTop hSlash

/-- The search reports its start and then the walk below it, each as far as the arguments want it.
-/
theorem findFrom_eq :
    findFrom v arguments start = .ok
      ((if (v.get? top).any (isWanted arguments) then [start] else []) ++
        reported v (isWanted arguments) (arguments.integer? "-maxdepth") 0 start (v.walk top)) := by
  have hResolve : v.resolve? start = some top := by
    rw [Volume.resolve?, hStart]
    rfl
  have hShallow := h.shallow (Volume.holds_of_isDirectory hTop)
  rw [findFrom, hResolve]
  dsimp only
  rw [findWithin_eq h hNamed _ _ hShallow hSlash, Volume.walk]

/-- Without a test all is found, as deep as it is asked for. -/
theorem findFrom_all (hWanted : ∀ node, isWanted arguments node = true) (maxDepth : Option Int)
    (hDepth : arguments.integer? "-maxdepth" = maxDepth) :
    findFrom v arguments start = .ok (start ::
      ((v.walk top).filter fun met => isWithin maxDepth (Path.segments met.1)).map
        fun met => Path.append start met.1) := by
  have hKept : (v.walk top).filter (fun met => (v.get? met.2).any (isWanted arguments) &&
        isWithin maxDepth (0 + Path.segments met.1)) =
      (v.walk top).filter fun met => isWithin maxDepth (Path.segments met.1) := by
    refine List.filter_congr fun met hMet => ?_
    have hHeld := h.holds_of_mem_walk hNamed (Volume.holds_of_isDirectory hTop) hMet
    obtain ⟨node, hNode⟩ := Volume.holds_iff.mp hHeld
    rw [hNode, Option.any_some, hWanted, Bool.true_and, Nat.zero_add]
  obtain ⟨node, hNode⟩ := Volume.holds_iff.mp (Volume.holds_of_isDirectory hTop)
  rw [findFrom_eq h hNamed arguments hStart hTop hSlash, hDepth, reported, hKept, hNode,
    Option.any_some, hWanted, if_pos rfl, List.singleton_append]

/-- The files that are found are those of the recursive listing. -/
theorem findFrom_files (hWanted : ∀ node, isWanted arguments node = !node.isDirectory)
    (hDeep : arguments.integer? "-maxdepth" = none) :
    findFrom v arguments start = v.filesBelow start := by
  have hFile (id : InodeId) : (v.get? id).any (isWanted arguments) = v.isFile id := by
    rw [Volume.isFile_eq, Volume.isDirectory]
    cases v.get? id with
    | none => rfl
    | some node => simp [hWanted]
  have hDirectory : v.isFile top = false := Volume.isFile_of_isDirectory hTop
  have hListed (met : List (Text × InodeId)) : reported v (isWanted arguments) none 0 start met =
      met.filterMap fun found =>
        if v.isFile found.2 then some (Path.append start found.1) else none := by
    simp only [reported, hFile, isWithin_none, Bool.and_true]
    rw [← List.filterMap_eq_filter, List.map_filterMap]
    refine List.filterMap_congr fun found _ => ?_
    simp [Option.guard]
  rw [findFrom_eq h hNamed arguments hStart hTop hSlash, hFile, hDirectory, hDeep, hListed,
    Volume.filesBelow, hStart, ok_bind, hDirectory]
  rfl

end From

end Find

section Words

variable {start : Text} (hDash : start.head? ≠ some (chr '-'))
include hDash

theorem read_start : findSpec.read [start] = .ok (.work ⟨[], [("paths", [start])]⟩) := by
  have hWords : ∀ word ∈ [start], word.head? ≠ some (chr '-') := by simpa using hDash
  have hServed : serveMost [.many] [false] = [1] := by decide
  exact Spec.read_eq (readWords_held findSpec findSpec.operands [] hWords) hWords hServed
    (Nat.le_refl 1) (hand_each rfl hWords)

/-- A test behind the starting point is read as a switch with its value. -/
theorem read_start_valued {s : Switch} {word value : Text} {made : Value}
    (hFind : findSpec.find? word = some s) (hTakes : s.effect.takesValue = true)
    (hValue : s.value (some value) = .ok made) (hTest : word.head? = some (chr '-'))
    (hSeparator : word ≠ separatorWord) (hOperand : value.head? ≠ some (chr '-')) :
    findSpec.read [start, word, value] =
      .ok (.work ⟨[(s.key, made)], [("paths", [start])]⟩) := by
  have hWords : ∀ word ∈ [start], word.head? ≠ some (chr '-') := by simpa using hDash
  have hServed : serveMost [.many] [false] = [1] := by decide
  have hFirst := readWords_valued hFind hTakes hValue hTest hSeparator hOperand
    findSpec.operands hDash
  exact Spec.read_eq hFirst hWords hServed (Nat.le_refl 1) (hand_each rfl hWords)

/-- A depth is read as a number, and the start as the one path. -/
theorem read_depth {number : Text} {n : Int} (hNumber : number.head? ≠ some (chr '-'))
    (hValue : Text.integer? number = some n) :
    findSpec.read [start, "-maxdepth", number] =
      .ok (.work ⟨[("-maxdepth", .integer n)], [("paths", [start])]⟩) := by
  have hFind : findSpec.find? "-maxdepth" =
      some ⟨["-maxdepth"], .integer "MAXDEPTH", "Descend at most N levels"⟩ := rfl
  refine read_start_valued hDash hFind rfl ?_ rfl (by decide) hNumber
  simp only [Switch.value, hValue]

theorem read_files :
    findSpec.read [start, "-type", "f"] =
      .ok (.work ⟨[("-type", .text "f")], [("paths", [start])]⟩) := by
  have hFind : findSpec.find? "-type" =
      some ⟨["-type"], .choice [[chr 'f'], [chr 'd']], "f: regular file, d: directory"⟩ := rfl
  exact read_start_valued hDash hFind rfl rfl rfl (by decide) (by decide)

end Words

/-- What `find` does with some words: it finds paths below one starting point, shows each on a line
of its own, whatever is piped into it, and leaves the session as it was. -/
structure Finds (session : Session) (words paths : List Text) : Prop where
  found : ∃ arguments start, findSpec.read words = .ok (.work arguments) ∧
    arguments.words "paths" = [start] ∧ findFrom session.volume arguments start = .ok paths
  shown : ∀ (given : List Word) (stdin : Option Text), given.map Word.text = words →
    (find.run given stdin).run.run session = (.ok (Text.joinLines paths), session)

/-- Words that are read as these arguments find what the search for them gives. -/
theorem finds_of_read {session : Session} {words paths : List Text} {arguments : Arguments}
    {start : Text} (hRead : findSpec.read words = .ok (.work arguments))
    (hStart : arguments.words "paths" = [start])
    (hFound : findFrom session.volume arguments start = .ok paths) :
    Finds session words paths where
  found := ⟨arguments, start, hRead, hStart, hFound⟩
  shown given stdin hGiven := by
    have hAsk : (Action.ask fun v => [start].mapM (findFrom v arguments)).run.run session =
        (.ok [paths], session) := by
      rw [Action.run_ask]
      simp only [List.mapM_cons, hFound]
      rfl
    rw [find, plain, run_prepared (by rw [hGiven]; exact hRead), hStart]
    dsimp only
    rw [List.isEmpty_cons, if_neg Bool.false_ne_true, Action.run_bind_ok hAsk,
      List.flatten_singleton]
    rfl

/-- Below a directory `find` reports what a walk meets, in that order, each path joined with the
starting point: all of it, or as deep as it is asked for, or the files, which are those of the
recursive listing. Every path that it reports leads to what it stands for. -/
theorem find_walk {session : Session} (hSound : Sound session.volume)
    (hNamed : ChildNamed session.volume) {start : Text} {top : InodeId}
    (hDash : start.head? ≠ some (chr '-')) (hSlash : start.getLast? = some (chr '/') → start = [chr '/'])
    (hStart : session.volume.lookup start = .ok top)
    (hTop : session.volume.isDirectory top = true) :
    Finds session [start]
      (start :: (session.volume.walk top).map fun met => Path.append start met.1) ∧
    (∀ (n : Nat) (number : Text), number.head? ≠ some (chr '-') → Text.integer? number = some n →
      Finds session [start, "-maxdepth", number]
        (start :: ((session.volume.walk top).filter fun met => Path.segments met.1 ≤ n).map
          fun met => Path.append start met.1)) ∧
    (∃ files, session.volume.filesBelow start = .ok files ∧
      Finds session [start, "-type", "f"] files) ∧
    ∀ met ∈ session.volume.walk top,
      session.volume.lookup (Path.append start met.1) = .ok met.2 := by
  have hForest := hSound.forest
  refine ⟨?_, ?_, ?_, ?_⟩
  · have hFound := findFrom_all hForest hNamed ⟨[], [("paths", [start])]⟩ hStart hTop hSlash
      (fun _ => rfl) none rfl
    simp only [isWithin_none, List.filter_true] at hFound
    exact finds_of_read (read_start hDash) rfl hFound
  · intro n number hNumber hValue
    have hFound := findFrom_all hForest hNamed ⟨[("-maxdepth", .integer n)], [("paths", [start])]⟩
      hStart hTop hSlash (fun _ => rfl) (some n) rfl
    simp only [isWithin_natCast] at hFound
    exact finds_of_read (read_depth hDash hNumber hValue) rfl hFound
  · have hWanted (node : Inode) : isWanted ⟨[("-type", .text "f")], [("paths", [start])]⟩ node =
        !node.isDirectory := by
      change (node.isDirectory == false) = _
      simp
    have hFound := findFrom_eq hForest hNamed ⟨[("-type", .text "f")], [("paths", [start])]⟩
      hStart hTop hSlash
    have hFiles := findFrom_files hForest hNamed _ hStart hTop hSlash hWanted rfl
    exact ⟨_, hFiles.symm.trans hFound, finds_of_read (read_files hDash) rfl hFound⟩
  · exact fun met hMem => hForest.lookup_append hNamed hStart hTop hMem

/-- A directory that is current, with a directory and two files below it. -/
theorem find_walk_dot :
    let v := (Volume.fresh .origin).after [(.origin, .createDirectories "/d/e"),
      (.origin, .writeFile "/d/e/b" "y" false), (.origin, .writeFile "/d/a" "x" false),
      (.origin, .changeDirectory "/d")]
    let session := Session.start v .empty .origin
    v.lookup "." = .ok 1 ∧ v.walk 1 = ([("e", 2), ("e/b", 3), ("a", 4)] : List (Text × InodeId)) ∧
      Finds session ["."] [".", "./e", "./e/b", "./a"] ∧
      Finds session [".", "-maxdepth", "1"] [".", "./e", "./a"] ∧
      v.filesBelow "." = .ok ["./e/b", "./a"] ∧
      Finds session [".", "-type", "f"] ["./e/b", "./a"] ∧
      v.lookup "./e/b" = .ok 3 := by
  intro v session
  have hAttained : Volume.Attained v := (Volume.Attained.fresh .origin).after_of_all (by decide)
  have hSound : Sound session.volume := hAttained.sound
  have hNamed : ChildNamed session.volume := hAttained.tidy.childNamed hSound.forest
  have hStart : session.volume.lookup "." = .ok 1 := rfl
  have hTop : session.volume.isDirectory 1 = true := rfl
  have hWalk : session.volume.walk 1 = ([("e", 2), ("e/b", 3), ("a", 4)] : List (Text × InodeId)) := by
    decide +kernel
  have hFiles : session.volume.filesBelow "." = .ok ["./e/b", "./a"] := rfl
  obtain ⟨hAll, hDepth, ⟨files, hSame, hFound⟩, hLeads⟩ :=
    find_walk hSound hNamed (by decide) (by decide) hStart hTop
  have hOne := hDepth 1 "1" (by decide) (by decide)
  rw [hWalk] at hAll hOne hLeads
  obtain rfl : (["./e/b", "./a"] : List Text) = files := Except.ok.inj (hFiles.symm.trans hSame)
  exact ⟨hStart, hWalk, hAll, hOne, hFiles, hFound, hLeads ("e/b", 3) (by decide)⟩

end TreeShell.Builtin
