import TreeShell.Proofs.Volume.Extension

/-! Writing a file. A file that a path leads to is overwritten in its place; where the path leads
nowhere, a file is created under its last name, slashes at the end left out. A path is read along its
parts and ended by a check, so that a file which was created under a path with a slash at the end is
found by the path without it, and not by the path that was given. -/
namespace TreeShell

/-- The ways to take a path apart, slashes at its end left out. -/
theorem Path.parse_cases {path directory name : Text} (h : Path.parse path = (directory, name))
    (hName : name ≠ []) :
    directory = [chr '.'] ∧ path.dropEndWhile (· == '/') = name ∨
      directory = [chr '/'] ∧ path.dropEndWhile (· == '/') = chr '/' :: name ∨
      directory ≠ [] ∧ path.dropEndWhile (· == '/') = directory ++ chr '/' :: name := by
  rw [Path.parse] at h
  generalize path.dropEndWhile (· == '/') = body at h ⊢
  split at h
  · split at h <;> exact absurd (Prod.mk.inj h).2.symm hName
  · cases hBreak : body.breakOnLast? (chr '/') with
    | none =>
        rw [hBreak] at h
        exact Or.inl ⟨(Prod.mk.inj h).1.symm, (Prod.mk.inj h).2⟩
    | some parts =>
        obtain ⟨front, last⟩ := parts
        obtain ⟨⟨after, before⟩, hReverse, hSame⟩ := Option.map_eq_some_iff.mp hBreak
        obtain ⟨rfl, rfl⟩ := Prod.mk.inj hSame
        have hBody : body = before.reverse ++ chr '/' :: after.reverse := by
          rw [← body.reverse_reverse, Text.eq_append_of_breakOn?_eq_some hReverse]
          simp
        rw [hBreak] at h
        right
        cases hFront : before.reverse with
        | nil =>
            rw [hFront] at h hBody
            exact Or.inl ⟨(Prod.mk.inj h).1.symm, (Prod.mk.inj h).2 ▸ hBody⟩
        | cons c front =>
            rw [hFront] at h hBody
            obtain ⟨rfl, rfl⟩ := Prod.mk.inj h
            exact Or.inr ⟨List.cons_ne_nil _ _, hBody⟩

namespace Volume

/-- The parts of a path lead to an inode, whatever that is. -/
def Reaches (v : Volume) (path : Text) (id : InodeId) : Prop :=
  path ≠ [] ∧ (path.splitOn (chr '/')).foldlM (v.follow path)
    (if Path.isAbsolute path then root else v.startAt v.cwd) = .ok id

theorem lookup_eq_ok {v : Volume} {path : Text} {id : InodeId} :
    v.lookup path = .ok id ↔
      v.Reaches path id ∧ (path.getLast? = some (chr '/') → v.isFile id = false) := by
  rw [lookup, lookupFrom_eq_ok, Reaches, and_assoc]

/-- A longer path is read on from where its front leads to. -/
theorem reaches_append_iff {v : Volume} {path rest : Text} {id : InodeId} (hPath : path ≠ []) :
    v.Reaches (path ++ chr '/' :: rest) id ↔ ∃ directory, v.Reaches path directory ∧
      (rest.splitOn (chr '/')).foldlM (v.follow rest) directory = .ok id := by
  obtain ⟨c, front, rfl⟩ := List.exists_cons_of_ne_nil hPath
  rw [Reaches, Text.splitOn_append_sep, List.foldlM_append, bind_eq_ok]
  constructor
  · rintro ⟨_, directory, hFront, hRest⟩
    exact ⟨directory, ⟨hPath, (followAll_eq_ok_iff _ _).mp hFront⟩, (followAll_eq_ok_iff _ _).mp hRest⟩
  · rintro ⟨directory, hFront, hRest⟩
    exact ⟨by simp, directory, (followAll_eq_ok_iff _ _).mp hFront.2,
      (followAll_eq_ok_iff _ _).mp hRest⟩

/-- Slashes at the end of a path lead no further. -/
theorem reaches_slashes_iff {v : Volume} {path : Text} {id : InodeId} (hPath : path ≠ [])
    (count : Nat) : v.Reaches (path ++ List.replicate count (chr '/')) id ↔ v.Reaches path id := by
  induction count with
  | zero => rw [List.replicate_zero, List.append_nil]
  | succ count ih =>
      have hLonger : path ++ List.replicate count (chr '/') ≠ [] := by simp [hPath]
      rw [List.replicate_succ', ← List.append_assoc, reaches_append_iff hLonger, ← ih]
      constructor
      · rintro ⟨directory, hFront, hRest⟩
        obtain rfl : directory = id := Except.ok.inj hRest
        exact hFront
      · intro hFront
        exact ⟨id, hFront, rfl⟩

/-- A slash at the end of a path asks for a directory. -/
theorem Reaches.lookup_eq {v : Volume} {path : Text} {id : InodeId} (h : v.Reaches path id) :
    v.lookup path = if path.getLast? = some (chr '/') ∧ v.isFile id = true
      then .error (.path .notDirectory path) else .ok id := by
  rw [lookup, lookupFrom_eq v v.cwd h.1, h.2]
  rfl

/-- A path to a file can be read unless it ends in a slash, which asks for a directory. -/
theorem Reaches.readFile_eq {v : Volume} {path content : Text} {id : InodeId}
    (h : v.Reaches path id) (hContent : v.content? id = some content) :
    v.readFile path =
      if path.getLast? = some (chr '/') then .error (.path .notDirectory path) else .ok content := by
  have hFile : v.isFile id = true := by rw [isFile, hContent, Option.isSome_some]
  rw [readFile, h.lookup_eq, hFile]
  by_cases hLast : path.getLast? = some (chr '/')
  · simp [hLast]
    rfl
  · simp only [hLast, false_and, if_false, ok_bind, hContent]
    rfl

/-- What a path reaches, slashes at the end left out, is what stands at the place that it names. -/
theorem reaches_iff_of_parse {v : Volume} {path front name : Text} {directory id : InodeId}
    (hParse : Path.parse path = (front, name))
    (hName : Path.IsChildName name) (hFront : v.lookup front = .ok directory)
    (hDirectory : v.isDirectory directory = true) :
    v.Reaches (path.dropEndWhile (· == '/')) id ↔ v.child? directory name = some id := by
  have hLast : (name.splitOn (chr '/')).foldlM (v.follow name) directory = .ok id ↔
      v.child? directory name = some id := by
    rw [Text.splitOn_of_not_mem hName.single, ← follow_name_iff hName.valid hDirectory, List.foldlM_cons]
    exact iff_of_eq (congrArg (· = _) (bind_pure _))
  rcases Path.parse_cases hParse hName.ne_nil with ⟨rfl, hPath⟩ | ⟨rfl, hPath⟩ | ⟨hSome, hPath⟩
  · obtain rfl : v.startAt v.cwd = directory := Except.ok.inj (lookup_eq_ok.mp hFront).1.2
    have hRelative : Path.isAbsolute name = false := by
      rw [Path.isAbsolute, beq_eq_false_iff_ne]
      exact fun hFirst => hName.single (List.mem_of_head? hFirst)
    rw [hPath, Reaches, hRelative, ← hLast]
    exact and_iff_right hName.ne_nil
  · obtain rfl : root = directory := Except.ok.inj (lookup_eq_ok.mp hFront).1.2
    rw [hPath, Reaches, Text.splitOn, if_pos rfl, List.foldlM_cons, ← hLast]
    exact (and_iff_right (List.cons_ne_nil _ _)).trans (followAll_eq_ok_iff _ _)
  · have hReached := (lookup_eq_ok.mp hFront).1
    rw [hPath, reaches_append_iff hSome, ← hLast]
    constructor
    · rintro ⟨other, hOther, hRest⟩
      rwa [Except.ok.inj (hReached.2.symm.trans hOther.2)]
    · intro hRest
      exact ⟨directory, hReached, hRest⟩

/-- A place is a name that can be given, in a directory that the front of the path leads to. -/
theorem placeFor_eq_ok {v : Volume} {path name : Text} {directory : InodeId} :
    v.placeFor path = .ok (directory, name) ↔ ∃ front, Path.parse path = (front, name) ∧
      Path.IsChildName name ∧ v.lookup front = .ok directory ∧ v.isDirectory directory = true := by
  simp only [placeFor, check_eq_ok, bind_eq_ok]
  constructor
  · rintro ⟨hValid, found, hFound, hKind, hSame⟩
    obtain ⟨rfl, rfl⟩ := Prod.mk.inj (Except.ok.inj hSame)
    exact ⟨_, rfl, ⟨by simpa using hValid, Path.not_mem_parse path⟩, hFound, by simpa using hKind⟩
  · rintro ⟨front, hParse, hName, hFound, hKind⟩
    rw [hParse]
    exact ⟨by simp [hName.valid], directory, hFound, by simp [hKind], rfl⟩

/-- Nothing is found by a path that names a free place. -/
theorem resolve?_eq_none_of_placeFor {v : Volume} {path name : Text} {directory : InodeId}
    (hPlace : v.placeFor path = .ok (directory, name)) (hFree : v.child? directory name = none) :
    v.resolve? path = none := by
  obtain ⟨front, hParse, hName, hFront, hDirectory⟩ := placeFor_eq_ok.mp hPlace
  rw [Option.eq_none_iff_forall_ne_some]
  intro id hFound
  obtain ⟨back, hPath, hBack⟩ := Text.exists_dropEndWhile (· == '/') path
  have hSlashes : back = List.replicate back.length (chr '/') :=
    List.eq_replicate_of_mem fun c hc => beq_iff_eq.mp (hBack c hc)
  have hSome : path.dropEndWhile (· == '/') ≠ [] := by
    rcases Path.parse_cases hParse hName.ne_nil with ⟨_, hBody⟩ | ⟨_, hBody⟩ | ⟨_, hBody⟩
    · exact hBody ▸ hName.ne_nil
    · exact hBody ▸ List.cons_ne_nil _ _
    · rw [hBody]
      simp
  have hReached := (lookup_eq_ok.mp (resolveFrom?_eq_some.mp hFound)).1
  rw [hPath, hSlashes, reaches_slashes_iff hSome, reaches_iff_of_parse hParse hName hFront hDirectory,
    hFree] at hReached
  cases hReached

/-- What happens when a file is written: nothing, or the one that the path leads to is overwritten, or
there is none and one is created, whether its content has bytes or not. -/
theorem writeFile_cases (v : Volume) (now : Instant) (path content : Text) (append : Bool) :
    (∃ fault, v.writeFile now path content append = (.error fault, v)) ∨
    (∃ id old, v.lookup path = .ok id ∧ v.content? id = some old ∧ v.writeFile now path content append =
      (.ok id, v.setContent now id (if append then old ++ content else content))) ∨
    ∃ directory name, v.resolve? path = none ∧ v.placeFor path = .ok (directory, name) ∧
      v.child? directory name = none ∧ v.writeFile now path content append =
        (content.measure.map fun _ => (v.add now directory name (.file content)).1,
          (v.add now directory name (.file content)).2) := by
  cases hFound : v.resolve? path with
  | none =>
      have hWrite : v.writeFile now path content append = v.createFile now path content := by
        rw [writeFile, hFound]
      rw [hWrite]
      obtain ⟨fault, _, hFailed⟩ | ⟨id, w, hCreated, hMade⟩ := createFile_cases v now path content
      · exact .inl ⟨fault, hFailed⟩
      · simp only [create, check_eq_ok, bind_eq_ok] at hCreated
        obtain ⟨⟨directory, name⟩, hPlace, hFree, hSame⟩ := hCreated
        cases hSame
        exact .inr (.inr ⟨directory, name, rfl, hPlace, by simpa using hFree, hMade⟩)
  | some found =>
      cases hOld : v.content? found with
      | none => exact .inl ⟨.path .isDirectory path, by simp only [writeFile, hFound, hOld]⟩
      | some old =>
          have hSet : v.writeFile now path content append =
              (.ok found, v.setContent now found (if append then old ++ content else content)) := by
            simp only [writeFile, hFound, hOld]
          exact .inr (.inl ⟨found, old, resolveFrom?_eq_some.mp hFound, hOld, hSet⟩)

/-- Setting the content of one file leaves all others as they are. -/
theorem content?_setContent {v : Volume} (now : Instant) {id : InodeId} (hId : v.Holds id)
    (content : Text) (x : InodeId) :
    (v.setContent now id content).content? x = if x = id then some content else v.content? x := by
  obtain ⟨node, hNode⟩ := holds_iff.mp hId
  rw [content?, setContent, get?_update]
  split
  · rw [hNode]
    rfl
  · rfl

theorem content?_add {v : Volume} (now : Instant) {directory : InodeId} (hHeld : v.Holds directory)
    (name content : Text) : (v.add now directory name (.file content)).2.content?
      (v.add now directory name (.file content)).1 = some content := by
  change (v.add now directory name (.file content)).2.content? v.slots.size = some content
  rw [content?, get?_add v now hHeld, if_pos rfl]
  rfl

/-- What writing a file does: it holds the content at its path, slashes at the end left out, and every
other inode stays. -/
structure Written (v w : Volume) (path content : Text) (id : InodeId) : Prop where
  content? : w.content? id = some content
  trimmed : w.readFile (path.dropEndWhile (· == '/')) = .ok content
  readFile : w.readFile path =
    if path.getLast? = some (chr '/') then .error (.path .notDirectory path) else .ok content
  created : path.getLast? = some (chr '/') → ¬ v.Holds id
  holds : ∀ x, w.Holds x ↔ v.Holds x ∨ x = id
  stays : ∀ x, v.Holds x → x ≠ id → Stays v w x
  overwritten : v.Holds id → v.isFile id = true ∧ w.pathOf id = v.pathOf id
  cwd : w.cwd = v.cwd

theorem SameShape.pathOf_eq {v w : Volume} (h : SameShape v w) (hv : Forest [] v) {x : InodeId}
    (hx : v.Holds x) : w.pathOf x = v.pathOf x := by
  refine hv.pathOf_keep (hv.sameShape h) hx fun d _ _ _ hListed _ => ?_
  rwa [h.entries]

theorem SameShape.stays {v w : Volume} (h : SameShape v w) (hv : Forest [] v) {x : InodeId}
    (hx : v.Holds x) (hContent : w.content? x = v.content? x) : Stays v w x :=
  ⟨(h.holds x).mpr hx, h.pathOf_eq hv hx, h.isDirectory x, hContent⟩

/-- A file is read by a path that reaches it once the slashes at the end are left out. -/
theorem Reaches.trimmed {w : Volume} {path content : Text} {id : InodeId}
    (h : w.Reaches (path.dropEndWhile (· == '/')) id) (hContent : w.content? id = some content) :
    w.readFile (path.dropEndWhile (· == '/')) = .ok content ∧ w.readFile path =
      if path.getLast? = some (chr '/') then .error (.path .notDirectory path) else .ok content := by
  obtain ⟨back, hPath, hBack⟩ := Text.exists_dropEndWhile (· == '/') path
  have hSlashes : back = List.replicate back.length (chr '/') :=
    List.eq_replicate_of_mem fun c hc => beq_iff_eq.mp (hBack c hc)
  have hWhole : w.Reaches path id := by
    have hMore := (reaches_slashes_iff h.1 back.length).mpr h
    rwa [← hSlashes, ← hPath] at hMore
  have hEnd : (path.dropEndWhile (· == '/')).getLast? ≠ some (chr '/') := fun hLast =>
    Bool.noConfusion (Text.getLast?_dropEndWhile hLast)
  exact ⟨by rw [h.readFile_eq hContent, if_neg hEnd], hWhole.readFile_eq hContent⟩

/-- A file that a path leads to is read back at this path, since no path with a slash at its end
leads to a file. -/
theorem Sound.overwritten {v : Volume} (h : Sound v) (now : Instant) {path old : Text}
    {id : InodeId} (hFound : v.lookup path = .ok id) (hOld : v.content? id = some old) (content : Text) :
    Written v (v.setContent now id content) path content id := by
  have hHeld := h.holds_lookup hFound
  have hShape := sameShape_setContent now hOld content
  have hContent := content?_setContent now hHeld content
  have hFile : v.isFile id = true := by rw [isFile, hOld, Option.isSome_some]
  have hReached : (v.setContent now id content).lookup path = .ok id := by
    rw [hShape.lookup_eq, hFound]
  -- A path with a slash at the end does not lead to a file.
  have hLast : path.getLast? ≠ some (chr '/') := by
    intro hSlash
    rw [(lookup_eq_ok.mp hFound).2 hSlash] at hFile
    cases hFile
  have hPath : path.dropEndWhile (· == '/') = path := by
    refine Text.dropEndWhile_eq_self fun c hc => ?_
    rw [beq_eq_false_iff_ne]
    rintro rfl
    exact hLast hc
  have hTrimmed := (lookup_eq_ok.mp hReached).1
  rw [← hPath] at hTrimmed
  obtain ⟨hRead, hWhole⟩ := hTrimmed.trimmed ((hContent id).trans (if_pos rfl))
  refine ⟨(hContent id).trans (if_pos rfl), hRead, hWhole, fun hSlash => absurd hSlash hLast, fun x => ?_,
    fun x hx hOther => ?_, fun _ => ⟨hFile, ?_⟩, hShape.cwd⟩
  · rw [hShape.holds]
    refine ⟨Or.inl, ?_⟩
    rintro (hx | rfl)
    · exact hx
    · exact hHeld
  · exact hShape.stays h.forest hx ((hContent x).trans (if_neg hOther))
  · exact hShape.pathOf_eq h.forest hHeld

/-- A created file is read back at its path, slashes at the end left out. -/
theorem Sound.created {v : Volume} (h : Sound v) (now : Instant) {path name : Text}
    {directory : InodeId} (hPlace : v.placeFor path = .ok (directory, name))
    (hFree : v.child? directory name = none) (content : Text) :
    Written v (v.add now directory name (.file content)).2 path content
      (v.add now directory name (.file content)).1 := by
  obtain ⟨front, hParse, hName, hFront, hDirectory⟩ := placeFor_eq_ok.mp hPlace
  have hMade := h.forest.extended now hDirectory (child?_eq_none_iff.mp hFree)
    (show (Inode.mk name (some directory) now now (.file content)).entries = [] from rfl)
  have hMore := hMade.enlarged hDirectory
  have hGrown := hMore.grown hDirectory
  have hNew : ¬ v.Holds (v.add now directory name (.file content)).1 :=
    fun hHeld => Nat.lt_irrefl _ hHeld.lt
  have hContent := content?_add now (holds_of_isDirectory hDirectory) name content
  have hReached := (reaches_iff_of_parse hParse hName (h.lookup_grown hMade.forest hGrown hFront)
    (hGrown.isDirectory _ hDirectory)).mpr (hMade.forest.child?_eq (hMade.mem_entries hDirectory))
  obtain ⟨hTrimmed, hRead⟩ := hReached.trimmed hContent
  refine ⟨hContent, hTrimmed, hRead, fun _ => hNew, fun x => ?_,
    fun x hx _ => hMore.stays hDirectory h.forest hx, fun hHeld => absurd hHeld hNew, hMade.cwd⟩
  rw [hMade.holds_iff h.forest hDirectory]
  refine or_congr_right ⟨?_, fun hSame => ⟨0, hSame ▸ .here⟩⟩
  rintro ⟨steps, hLeads⟩
  exact hLeads.eq_of_file (isDirectory_of_content?_eq_some hContent)

/-- What is written can be read back, and nothing else changes. -/
theorem written_of_writeFile {v w : Volume} (h : Reachable v) {now : Instant} {path content : Text}
    {id : InodeId} (hw : v.writeFile now path content false = (.ok id, w)) :
    Written v w path content id := by
  rcases writeFile_cases v now path content false with ⟨fault, hFailed⟩ | ⟨made, old, hFound, hOld, hSet⟩ |
    ⟨directory, name, _, hPlace, hFree, hNew⟩
  · cases hFailed.symm.trans hw
  · obtain ⟨hSame, rfl⟩ := Prod.mk.inj (hSet.symm.trans hw)
    obtain rfl : made = id := Except.ok.inj hSame
    exact h.sound.overwritten now hFound hOld content
  · obtain ⟨hSame, rfl⟩ := Prod.mk.inj (hNew.symm.trans hw)
    have hWritten := h.sound.created now hPlace hFree content
    cases hBytes : content.measure with
    | error fault =>
        rw [hBytes] at hSame
        cases hSame
    | ok size =>
        rw [hBytes] at hSame
        rwa [show (v.add now directory name (.file content)).1 = id from Except.ok.inj hSame] at hWritten

/-- A file is overwritten by a path that goes up, and one is created by a path with slashes at the
end. -/
theorem written_of_writeFile_above :
    let now := Instant.origin
    let v := (fresh now).after [(now, .createDirectories "/a/b"), (now, .createFile "/a/f" "x"),
      (now, .changeDirectory "/a/b")]
    (∃ w, v.writeFile now ".././f" "y" false = (.ok 3, w) ∧ Written v w ".././f" "y" 3) ∧
    ∃ w, v.writeFile now "../..//g//" "z" false = (.ok 4, w) ∧ Written v w "../..//g//" "z" 4 ∧
      w.listing = ([("/a", none), ("/a/b", none), ("/a/f", some "x"),
        ("/g", some "z")] : List (Text × Option Text)) := by
  intro now v
  have hReachable : Reachable v := reachable_after now _
  constructor
  · have hDone : (v.writeFile now ".././f" "y" false).1.toOption = some 3 := by decide +kernel
    obtain ⟨w, hw⟩ := exists_state_of_toOption hDone
    exact ⟨w, hw, written_of_writeFile hReachable hw⟩
  · have hDone : (v.writeFile now "../..//g//" "z" false).1.toOption = some 4 := by decide +kernel
    have hListing : (v.writeFile now "../..//g//" "z" false).2.listing =
        ([("/a", none), ("/a/b", none), ("/a/f", some "x"), ("/g", some "z")] : List (Text × Option Text)) := by
      decide +kernel
    obtain ⟨w, hw⟩ := exists_state_of_toOption hDone
    rw [hw] at hListing
    exact ⟨w, hw, written_of_writeFile hReachable hw, hListing⟩

/-- A file that is written under a path with a slash at the end is neither read nor written again by
that path. -/
theorem exists_unreadable_write :
    let now := Instant.origin
    let w := (fresh now).after [(now, .writeFile "/a/" "x" false)]
    (fresh now).writeFile now "/a/" "x" false = (.ok 1, w) ∧
      w.readFile "/a/" = .error (.path .notDirectory "/a/") ∧ w.readFile "/a" = .ok "x" ∧
      w.writeFile now "/a/" "y" false = (.error (.path .alreadyExists "/a/"), w) :=
  ⟨rfl, rfl, rfl, rfl⟩

end Volume

end TreeShell
