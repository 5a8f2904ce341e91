import TreeShell.Proofs.Volume.Write

/-! Creating the directories of a path. The way is the one on which the path is read, with a
directory made wherever one misses, so that the path leads to its end afterwards, also where it climbs
out of directories that were made a moment before. On a way that is there nothing is made. -/
namespace TreeShell.Volume

/-- Nothing of a volume is lost in a later one: every inode is found at its path and holds what it
held, and parts that led somewhere lead there still. -/
structure Continues (v w : Volume) : Prop where
  forest : Forest [] w
  stays : ∀ x, v.Holds x → Stays v w x
  followAll : ∀ (path : Text) (parts : List Text) (start found : InodeId), v.Holds start →
    parts.foldlM (v.follow path) start = .ok found → parts.foldlM (w.follow path) start = .ok found
  cwd : w.cwd = v.cwd

theorem Continues.refl {v : Volume} (h : Forest [] v) : Continues v v :=
  ⟨h, fun _ hx => .refl hx, fun _ _ _ _ _ hFound => hFound, rfl⟩

theorem Continues.trans {u v w : Volume} (first : Continues u v) (second : Continues v w) :
    Continues u w where
  forest := second.forest
  stays x hx := (first.stays x hx).trans (second.stays x (first.stays x hx).held)
  followAll path parts start found hStart hFound :=
    second.followAll path parts start found (first.stays start hStart).held
      (first.followAll path parts start found hStart hFound)
  cwd := second.cwd.trans first.cwd

/-- What could be followed is still followed to the same inode. -/
theorem Continues.follow {v w : Volume} (h : Continues v w) {path part : Text} {current next : InodeId}
    (hCurrent : v.Holds current) (hNext : v.follow path current part = .ok next) :
    w.follow path current part = .ok next := by
  have hOne : ∀ u : Volume, [part].foldlM (u.follow path) current = u.follow path current part := by
    intro u
    rw [List.foldlM_cons]
    exact bind_pure _
  have hLater := h.followAll path [part] current next hCurrent (by rw [hOne, hNext])
  rwa [hOne] at hLater

/-- An enlarged directory continues the volume. -/
theorem Enlarged.continues {v w : Volume} {directory : InodeId} (h : Enlarged v w directory)
    (hv : Forest [] v) (hDirectory : v.isDirectory directory = true) : Continues v w where
  forest := h.forest
  stays _ hx := h.stays hDirectory hv hx
  followAll _ _ _ _ hStart hFound := (h.grown hDirectory).followAll hv h.forest hStart hFound
  cwd := h.cwd

/-- One part of a way: it leads to a directory, which is made if nothing is there, or it meets a
file. -/
theorem Forest.enter_cons {v : Volume} (h : Forest [] v) (now : Instant) (path part : Text)
    {current : InodeId} (hCurrent : v.isDirectory current = true) :
    (∃ next u, Continues v u ∧ u.isDirectory next = true ∧ u.follow path current part = .ok next ∧
      ∀ parts, enter now path (part :: parts) current v = enter now path parts next u) ∨
    ∀ parts, enter now path (part :: parts) current v = (.error (.path .notDirectory path), v) := by
  by_cases hStay : Path.staysPut part = true
  · refine Or.inl ⟨current, v, .refl h, hCurrent, by rw [follow, if_pos hStay], fun parts => ?_⟩
    rw [enter, if_pos hStay]
  · by_cases hUp : (part == Path.up) = true
    · refine Or.inl ⟨(v.parentOf? current).getD current, v, .refl h, ?_, ?_, fun parts => ?_⟩
      · cases hParent : v.parentOf? current with
        | none => exact hCurrent
        | some up => exact h.parent_isDirectory hParent
      · simp [follow, hStay, hUp, hCurrent]
      · rw [enter, if_neg hStay, if_pos hUp]
    · have hName : Path.isValidName part = true := Path.isValidName_iff.mpr ⟨hStay, hUp⟩
      cases hChild : v.child? current part with
      | none =>
          have hBare : (Inode.mk part (some current) now now (.directory [])).entries = [] := rfl
          have hFree := child?_eq_none_iff.mp hChild
          have hMade := h.extended now hCurrent hFree hBare
          have hAdded := h.add now hCurrent hFree hBare
          have hMore := hMade.enlarged hCurrent
          refine Or.inl ⟨_, _, hMore.continues h hCurrent, hAdded.isDirectory, ?_, fun parts => ?_⟩
          · exact (follow_name_iff hName hMore.isDirectory).mpr
              (hMade.forest.child?_eq (hMade.mem_entries hCurrent))
          · rw [enter, if_neg hStay, if_neg hUp, hChild]
      | some found =>
          by_cases hKind : v.isDirectory found = true
          · have hFollow : v.follow path current part = .ok found :=
              (follow_name_iff hName hCurrent).mpr hChild
            refine Or.inl ⟨found, v, .refl h, hKind, hFollow, fun parts => ?_⟩
            simp only [enter, hStay, hUp, hChild, hKind, Bool.false_eq_true, if_false, if_true]
          · refine Or.inr fun parts => ?_
            simp only [enter, hStay, hUp, hChild, hKind, Bool.false_eq_true, if_false]

/-- A way that is gone to its end is there afterwards, and leads to a directory. -/
theorem Forest.follow_of_enter {v w : Volume} (h : Forest [] v) {now : Instant} {path : Text}
    {parts : List Text} {current id : InodeId} (hCurrent : v.isDirectory current = true)
    (hw : enter now path parts current v = (.ok id, w)) :
    Continues v w ∧ w.isDirectory id = true ∧ parts.foldlM (w.follow path) current = .ok id := by
  induction parts generalizing v current with
  | nil =>
      obtain ⟨⟨⟩, ⟨⟩⟩ := hw
      exact ⟨.refl h, hCurrent, rfl⟩
  | cons part parts ih =>
      rcases h.enter_cons now path part hCurrent with ⟨next, u, hMore, hNext, hFollow, hRest⟩ | hFault
      · rw [hRest] at hw
        obtain ⟨hLater, hId, hParts⟩ := ih hMore.forest hNext hw
        have hHeld := (hMore.stays current (holds_of_isDirectory hCurrent)).held
        refine ⟨hMore.trans hLater, hId, ?_⟩
        rw [List.foldlM_cons, hLater.follow hHeld hFollow]
        exact hParts
      · rw [hFault] at hw
        cases hw

/-- Only directories stand in front of a directory on a way. -/
theorem isDirectory_of_follow {v : Volume} {path part : Text} {current next : InodeId}
    (hNext : v.follow path current part = .ok next) (hKind : v.isDirectory next = true) :
    v.isDirectory current = true := by
  rw [Volume.follow] at hNext
  split at hNext
  · cases hNext
    exact hKind
  · split at hNext
    · cases hNext
    · rename_i hCurrent
      simpa using hCurrent

/-- Only directories can be passed on the way to a directory, the start included. -/
theorem isDirectory_of_followAll {v : Volume} {path : Text} {parts : List Text} {start id : InodeId}
    (hFound : parts.foldlM (v.follow path) start = .ok id) (hId : v.isDirectory id = true) :
    v.isDirectory start = true := by
  induction parts generalizing start with
  | nil =>
      cases hFound
      exact hId
  | cons part parts ih =>
      rw [List.foldlM_cons, bind_eq_ok] at hFound
      obtain ⟨next, hNext, hRest⟩ := hFound
      exact isDirectory_of_follow hNext (ih hRest)

/-- On a way that is there nothing is made. -/
theorem enter_of_followAll {v : Volume} (now : Instant) {path : Text} {parts : List Text}
    {current id : InodeId} (hFound : parts.foldlM (v.follow path) current = .ok id)
    (hId : v.isDirectory id = true) : enter now path parts current v = (.ok id, v) := by
  induction parts generalizing current with
  | nil =>
      cases hFound
      rfl
  | cons part parts ih =>
      rw [List.foldlM_cons, bind_eq_ok] at hFound
      obtain ⟨next, hNext, hRest⟩ := hFound
      have hKind := isDirectory_of_followAll hRest hId
      have hLater := ih hRest
      rw [Volume.follow] at hNext
      rw [enter]
      split at hNext
      · rename_i hStay
        cases hNext
        rw [if_pos hStay, hLater]
      · rename_i hMoves
        rw [if_neg hMoves]
        split at hNext
        · cases hNext
        · split at hNext
          · rename_i hUp
            cases hNext
            rw [if_pos hUp, hLater]
          · rename_i hDown
            rw [if_neg hDown]
            split at hNext
            · rename_i hChild
              cases hNext
              simp only [hChild, hKind, if_true, hLater]
            · cases hNext

/-- What creating the directories of a path does: the path leads to the directory that was given,
nothing is lost, and doing it again changes nothing. -/
structure Paved (v w : Volume) (path : Text) (id : InodeId) : Prop where
  isDirectory : w.isDirectory id = true
  lookup : w.lookup path = .ok id
  stays : ∀ x, v.Holds x → Stays v w x
  again : ∀ later, w.createDirectories later path = (.ok id, w)
  cwd : w.cwd = v.cwd

/-- Directories are created on the way on which their path is read, once. -/
theorem paved_of_createDirectories {v w : Volume} (h : Reachable v) {now : Instant} {path : Text}
    {id : InodeId} (hPath : path ≠ []) (hw : v.createDirectories now path = (.ok id, w)) :
    Paved v w path id := by
  have hSound := h.sound
  have hOrigin : v.isDirectory (if Path.isAbsolute path then root else v.cwd) = true := by
    split
    · exact hSound.forest.rootDirectory
    · exact hSound.cwdDirectory
  obtain ⟨hMore, hId, hWay⟩ := hSound.forest.follow_of_enter hOrigin hw
  have hCwd : w.isDirectory v.cwd = true :=
    (hMore.stays _ (holds_of_isDirectory hSound.cwdDirectory)).isDirectory.trans hSound.cwdDirectory
  have hFile : w.isFile id = false := by
    rw [(holds_of_isDirectory hId).isFile_eq, hId, Bool.not_true]
  refine ⟨hId, lookup_eq_ok.mpr ⟨⟨hPath, ?_⟩, fun _ => hFile⟩, hMore.stays, fun later => ?_, hMore.cwd⟩
  · rwa [hMore.cwd, startAt_of_isDirectory hCwd]
  · rw [createDirectories, hMore.cwd]
    exact enter_of_followAll later hWay hId

/-- A way that climbs out of a directory made on it, and above the root. -/
theorem paved_of_createDirectories_above :
    let now := Instant.origin
    let v := (fresh now).after [(now, .createDirectories "/a/b"), (now, .createFile "/a/f" "x"),
      (now, .changeDirectory "/a/b")]
    ∃ w, v.createDirectories now "c//../../../../a/./d/" = (.ok 5, w) ∧
      Paved v w "c//../../../../a/./d/" 5 ∧
      w.listing = ([("/a", none), ("/a/b", none), ("/a/b/c", none),
        ("/a/f", some "x"), ("/a/d", none)] : List (Text × Option Text)) := by
  intro now v
  have hReachable : Reachable v := reachable_after now _
  have hSeen : (v.createDirectories now "c//../../../../a/./d/").1.toOption = some 5 ∧
      (v.createDirectories now "c//../../../../a/./d/").2.listing =
        ([("/a", none), ("/a/b", none), ("/a/b/c", none),
          ("/a/f", some "x"), ("/a/d", none)] : List (Text × Option Text)) := by
    decide +kernel
  rcases hw : v.createDirectories now "c//../../../../a/./d/" with ⟨_ | id, w⟩
  · rw [hw] at hSeen
    cases hSeen.1
  · rw [hw] at hSeen
    obtain rfl : id = 5 := Option.some.inj hSeen.1
    exact ⟨w, rfl, paved_of_createDirectories hReachable (by decide) hw, hSeen.2⟩

end TreeShell.Volume
