import TreeShell.Proofs.Fault
import TreeShell.Proofs.Volume.Forest
import TreeShell.Volume.Snapshot

/-! Operations that only add to a volume. A new inode is first loose and then entered into
its directory; a directory that is read from a snapshot is filled before it is entered. What
stood in the volume before stays, and no other directory gets new children. -/
namespace TreeShell

namespace Volume

/-- A tree whose current directory is one of its directories. -/
structure Sound (v : Volume) : Prop where
  forest : Forest [] v
  cwdDirectory : v.isDirectory v.cwd = true

theorem Sound.sameShape {v w : Volume} (h : Sound v) (hw : SameShape v w) : Sound w :=
  ⟨h.forest.sameShape hw, by rw [hw.cwd, hw.isDirectory, h.cwdDirectory]⟩

theorem sound_fresh (now : Instant) : Sound (fresh now) :=
  ⟨forest_fresh now, (forest_fresh now).rootDirectory⟩

theorem isFile_eq (v : Volume) (id : InodeId) :
    v.isFile id = ((v.get? id).isSome && !v.isDirectory id) := by
  rw [isFile, content?, isDirectory]
  cases v.get? id with
  | none => rfl
  | some node =>
      rcases node with ⟨name, parent, created, modified, body⟩
      cases body <;> rfl

theorem isFile_of_isDirectory {v : Volume} {id : InodeId} (h : v.isDirectory id = true) :
    v.isFile id = false := by
  rw [isFile_eq, h, Bool.not_true, Bool.and_false]

theorem SameShape.isFile_eq {v w : Volume} (h : SameShape v w) (id : InodeId) :
    w.isFile id = v.isFile id := by
  have hHolds : (w.get? id).isSome = (v.get? id).isSome := Bool.eq_iff_iff.mpr (h.holds id)
  rw [Volume.isFile_eq, Volume.isFile_eq, hHolds, h.isDirectory]

/-- Paths are read along names, parents and kinds only. -/
theorem SameShape.lookup_eq {v w : Volume} (h : SameShape v w) (path : Text) :
    w.lookup path = v.lookup path := by
  have hFollow : w.follow path = v.follow path := by
    funext current part
    simp only [follow, child?, h.isDirectory, h.parentOf?, h.entries]
  simp only [lookup, lookupFrom, startAt, hFollow, h.isFile_eq, h.parentOf?, h.cwd]

section Lookup

variable {v : Volume} (h : Forest [] v)
include h

/-- The parent of an inode is a directory. -/
theorem Forest.parent_isDirectory {id up : InodeId} (hUp : v.parentOf? id = some up) :
    v.isDirectory up = true :=
  isDirectory_of_entry (h.parentOf?_eq_some.mp hUp)

theorem Forest.holds_parent {id : InodeId} (hId : v.Holds id) :
    v.Holds ((v.parentOf? id).getD id) := by
  cases hUp : v.parentOf? id with
  | none => exact hId
  | some up => exact holds_of_isDirectory (h.parent_isDirectory hUp)

/-- Following a part leads from one inode of the volume to another. -/
theorem Forest.holds_follow {path part : Text} {current found : InodeId}
    (hCurrent : v.Holds current) (hFound : v.follow path current part = .ok found) :
    v.Holds found := by
  rw [follow] at hFound
  split at hFound
  · cases hFound
    exact hCurrent
  · split at hFound
    · cases hFound
    · split at hFound
      · cases hFound
        exact h.holds_parent hCurrent
      · split at hFound
        · rename_i hChild
          cases hFound
          exact (h.entry _ _ _ (mem_entries_of_child? hChild)).2.1
        · cases hFound

/-- A path leads to an inode of the table. -/
theorem Forest.holds_lookupFrom {path : Text} {start found : InodeId} (hStart : v.Holds start)
    (hFound : v.lookupFrom start path = .ok found) : v.Holds found := by
  have hParts : ∀ (parts : List Text) (current result : InodeId), v.Holds current →
      parts.foldlM (v.follow path) current = .ok result → v.Holds result := by
    intro parts
    induction parts with
    | nil =>
        intro current result hCurrent hResult
        cases hResult
        exact hCurrent
    | cons part parts ih =>
        intro current result hCurrent hResult
        rw [List.foldlM_cons, bind_eq_ok] at hResult
        obtain ⟨next, hNext, hRest⟩ := hResult
        exact ih next result (h.holds_follow hCurrent hNext) hRest
  have hOrigin : v.Holds (if Path.isAbsolute path then root else v.startAt start) := by
    split
    · exact holds_of_isDirectory h.rootDirectory
    · rw [startAt]
      split
      · exact h.holds_parent hStart
      · exact hStart
  simp only [lookupFrom, check_eq_ok, bind_eq_ok] at hFound
  obtain ⟨_, reached, hReached, _, hSame⟩ := hFound
  cases hSame
  exact hParts _ _ _ hOrigin hReached

end Lookup

section Place

variable {v : Volume} (h : Sound v)
include h

theorem Sound.holds_lookup {path : Text} {found : InodeId} (hFound : v.lookup path = .ok found) :
    v.Holds found :=
  h.forest.holds_lookupFrom (holds_of_isDirectory h.cwdDirectory) hFound

omit h in
/-- A place is in a directory. -/
theorem isDirectory_of_placeFor {path name : Text} {directory : InodeId}
    (hPlace : v.placeFor path = .ok (directory, name)) : v.isDirectory directory = true := by
  simp only [placeFor, check_eq_ok, bind_eq_ok] at hPlace
  obtain ⟨_, parent, _, hKind, hSame⟩ := hPlace
  cases hSame
  simpa using hKind

end Place

/-- What was there stays, and only `directory` may have got new children. -/
structure Grown (directory : InodeId) (v w : Volume) : Prop where
  holds : ∀ x, v.Holds x → w.Holds x
  isDirectory : ∀ x, v.isDirectory x = true → w.isDirectory x = true
  entries : ∀ x, v.entries x ⊆ w.entries x
  others : ∀ x, v.Holds x → x ≠ directory → w.entries x = v.entries x
  cwd : w.cwd = v.cwd

/-- Growth in one directory adds up. -/
theorem Grown.trans {directory : InodeId} {u v w : Volume} (first : Grown directory u v)
    (second : Grown directory v w) : Grown directory u w where
  holds x hx := second.holds x (first.holds x hx)
  isDirectory x hx := second.isDirectory x (first.isDirectory x hx)
  entries x := List.Subset.trans (first.entries x) (second.entries x)
  others x hx hNe := (second.others x (first.holds x hx) hNe).trans (first.others x hx hNe)
  cwd := second.cwd.trans first.cwd

theorem SameShape.grown {v w : Volume} (h : SameShape v w) (directory : InodeId) :
    Grown directory v w where
  holds x hx := (h.holds x).mpr hx
  isDirectory x hx := by rw [h.isDirectory, hx]
  entries x := by rw [h.entries]; exact List.Subset.refl _
  others x _ _ := h.entries x
  cwd := h.cwd

theorem Grown.refl (directory : InodeId) (v : Volume) : Grown directory v v :=
  (SameShape.refl v).grown directory

theorem Sound.grown {directory : InodeId} {v w : Volume} (h : Sound v) (hw : Forest [] w)
    (hGrown : Grown directory v w) : Sound w :=
  ⟨hw, by rw [hGrown.cwd]; exact hGrown.isDirectory _ h.cwdDirectory⟩

/-- A new inode is entered into a directory, possibly after it has got children itself. -/
theorem Forest.entered {loose : List InodeId} {v made filled : Volume} {directory id : InodeId}
    {name : Text} (h : Forest loose v) (hMade : Inserted v made id)
    (hFilled : Forest (id :: loose) filled) (hGrown : Grown id made filled)
    (hDirectory : v.isDirectory directory = true)
    (hName : name ∉ (v.entries directory).map Prod.fst) :
    Forest loose (filled.attach directory id name) ∧
      Grown directory v (filled.attach directory id name) ∧
      (filled.attach directory id name).entries directory = v.entries directory ++ [(name, id)] ∧
      (filled.attach directory id name).entries id = filled.entries id ∧
      (filled.attach directory id name).isDirectory id = filled.isDirectory id := by
  have hHeld := holds_of_isDirectory hDirectory
  have hNe : ∀ x, v.Holds x → x ≠ id := by
    rintro x hx rfl
    exact hMade.fresh hx
  have hKept : ∀ x, v.Holds x → filled.entries x = v.entries x := by
    intro x hx
    rw [hGrown.others x ((hMade.holds x).mpr (Or.inr hx)) (hNe x hx), hMade.entries]
  have hSubset : ∀ x, v.entries x ⊆ filled.entries x := by
    intro x
    rw [← hMade.entries]
    exact hGrown.entries x
  have hKinds : ∀ x, v.isDirectory x = true → filled.isDirectory x = true := by
    intro x hx
    refine hGrown.isDirectory x ?_
    rw [hMade.isDirectory x (hNe x (holds_of_isDirectory hx)), hx]
  have hId : filled.Holds id := hFilled.looseHeld id (List.mem_cons_self ..)
  have hBelow : ∀ steps, ¬ Leads filled id steps directory := by
    intro steps hLeads
    obtain ⟨top, hTop, count, hPrior⟩ := h.underTop directory hHeld
    have hMem : top ∈ root :: id :: loose := by
      rcases List.mem_cons.mp hTop with rfl | hTop
      · exact List.mem_cons_self ..
      · simp [hTop]
    have hSame := (hFilled.leads_unique hMem (by simp) (hPrior.mono hSubset) hLeads).1
    exact hNe top (h.top_held hTop) hSame
  have hw := relinked_attach name (hKinds directory hDirectory) hId (hNe directory hHeld)
  have hForest := hFilled.attached hw (holds_of_isDirectory (hKinds directory hDirectory)) hBelow
    (by rwa [hKept directory hHeld])
  rw [hKept directory hHeld] at hw
  refine ⟨hForest, ⟨?_, ?_, ?_, ?_, ?_⟩, ?_, ?_, hw.isDirectory id⟩
  · exact fun x hx => (hw.holds x).mpr (hGrown.holds x ((hMade.holds x).mpr (Or.inr hx)))
  · intro x hx
    rw [hw.isDirectory]
    exact hKinds x hx
  · intro x
    rw [hw.entries]
    split
    · rename_i hx
      subst hx
      exact List.subset_append_left _ _
    · exact hSubset x
  · intro x hx hOther
    rw [hw.entries, if_neg hOther, hKept x hx]
  · rw [hw.cwd, hGrown.cwd, hMade.cwd]
  · rw [hw.entries, if_pos rfl]
  · rw [hw.entries, if_neg (Ne.symm (hNe directory hHeld))]

/-- What creating an inode in a directory does. -/
structure Added (loose : List InodeId) (v w : Volume) (directory id : InodeId) (name : Text)
    (kind : Bool) : Prop where
  forest : Forest loose w
  grown : Grown directory v w
  listed : w.entries directory = v.entries directory ++ [(name, id)]
  fresh : ¬ v.Holds id
  bare : w.entries id = []
  isDirectory : w.isDirectory id = kind

/-- Entering a new childless inode under a free name keeps the forest, and says what the table holds
afterwards. -/
theorem Forest.add {loose : List InodeId} {v : Volume} {directory : InodeId} {name : Text}
    {body : Body} (h : Forest loose v) (now : Instant)
    (hDirectory : v.isDirectory directory = true)
    (hName : name ∉ (v.entries directory).map Prod.fst)
    (hBody : (Inode.mk name (some directory) now now body).entries = []) :
    Added loose v (v.add now directory name body).2 directory (v.add now directory name body).1
      name (Inode.mk name (some directory) now now body).isDirectory := by
  let node : Inode := ⟨name, some directory, now, now, body⟩
  have hMade : Inserted v (v.insert node).2 (v.insert node).1 := inserted_insert v hBody
  obtain ⟨hForest, hGrown, hListed, hBare, hKind⟩ :=
    h.entered hMade (h.inserted hMade) (Grown.refl _ _) hDirectory hName
  have hShape := sameShape_touch ((v.insert node).2.attach directory (v.insert node).1 name) now
    directory
  refine ⟨hForest.sameShape hShape, hGrown.trans (hShape.grown directory), ?_, hMade.fresh, ?_, ?_⟩
  · exact (hShape.entries directory).trans hListed
  · refine (hShape.entries _).trans (hBare.trans ?_)
    rw [hMade.entries]
    simp [Volume.entries, insert, get?_size_le]
  · exact (hShape.isDirectory _).trans (hKind.trans (isDirectory_insert v node))

theorem Sound.create {v w : Volume} {now : Instant} {path : Text} {body : Body} {id : InodeId}
    (h : Sound v) (hBody : ∀ name parent, (Inode.mk name parent now now body).entries = [])
    (hw : v.create now path body = .ok (id, w)) : Sound w := by
  simp only [Volume.create, check_eq_ok, bind_eq_ok] at hw
  obtain ⟨⟨directory, name⟩, hPlace, hNew, hSame⟩ := hw
  cases hSame
  have hAdded := h.forest.add now (isDirectory_of_placeFor hPlace)
    (child?_eq_none_iff.mp (by simpa using hNew)) (hBody name (some directory))
  exact h.grown hAdded.forest hAdded.grown

/-- Going along a path keeps a volume sound, also when it ends at a file. -/
theorem Sound.enter {v : Volume} (h : Sound v) (now : Instant) (path : Text) (parts : List Text)
    {current : InodeId} (hCurrent : v.isDirectory current = true) :
    Sound (enter now path parts current v).2 := by
  induction parts generalizing v current with
  | nil => exact h
  | cons part parts ih =>
      rw [Volume.enter]
      split
      · exact ih h hCurrent
      · split
        · refine ih h ?_
          cases hUp : v.parentOf? current with
          | none => exact hCurrent
          | some up => exact h.forest.parent_isDirectory hUp
        · split
          · rename_i hChild
            have hAdded := h.forest.add now hCurrent (child?_eq_none_iff.mp hChild)
              (show (Inode.mk part (some current) now now (.directory [])).entries = [] from rfl)
            exact ih (h.grown hAdded.forest hAdded.grown) hAdded.isDirectory
          · split
            · rename_i hKind
              exact ih h hKind
            · exact h

/-- Making directories keeps a volume sound, also if it ends in a fault on the way. -/
theorem Sound.createDirectories {v : Volume} (h : Sound v) (now : Instant) (path : Text) :
    Sound (v.createDirectories now path).2 := by
  rw [Volume.createDirectories]
  refine h.enter now path _ ?_
  split
  · exact h.forest.rootDirectory
  · exact h.cwdDirectory

/-- The creation of a file adds it, whether its content has bytes or not, or changes nothing. -/
theorem createFile_cases (v : Volume) (now : Instant) (path content : Text) :
    (∃ fault, v.create now path (.file content) = .error fault ∧
      v.createFile now path content = (.error fault, v)) ∨
    ∃ id w, v.create now path (.file content) = .ok (id, w) ∧
      v.createFile now path content = (content.measure.map fun _ => id, w) := by
  rw [createFile]
  cases hCreated : v.create now path (.file content) with
  | error fault => exact Or.inl ⟨fault, rfl, rfl⟩
  | ok made => exact Or.inr ⟨made.1, made.2, rfl, rfl⟩

theorem Sound.createFile {v : Volume} (h : Sound v) (now : Instant) (path content : Text) :
    Sound (v.createFile now path content).2 := by
  obtain ⟨fault, _, hFailed⟩ | ⟨id, w, hCreated, hMade⟩ := createFile_cases v now path content
  · rw [hFailed]
    exact h
  · rw [hMade]
    exact h.create (fun _ _ => rfl) hCreated

/-- Writing keeps a volume sound, whatever becomes of it. -/
theorem Sound.writeFile {v : Volume} (h : Sound v) (now : Instant) (path content : Text)
    (append : Bool) : Sound (v.writeFile now path content append).2 := by
  rw [Volume.writeFile]
  split
  · exact h.createFile now path content
  · split
    · exact h
    · rename_i hContent
      exact h.sameShape (sameShape_setContent now hContent _)

theorem Sound.touchPath {v : Volume} (h : Sound v) (now : Instant) (path : Text) :
    Sound (v.touchPath now path).2 := by
  rw [Volume.touchPath]
  split
  · exact h.createFile now path []
  · exact h.sameShape (sameShape_touch v now _)

end Volume

namespace Snapshot

open Volume

theorem sameShape_restoreTimes {v w : Volume} {id : InodeId} {created modified : Option Text}
    (hw : restoreTimes v id created modified = .ok w) : SameShape v w := by
  rw [restoreTimes] at hw
  split at hw
  · simp only [bind_eq_ok] at hw
    obtain ⟨first, _, last, _, hSame⟩ := hw
    cases hSame
    exact sameShape_update (fun _ => rfl) (fun _ => rfl) (fun _ _ => ⟨rfl, rfl⟩)
  · cases hw
    exact SameShape.refl v

mutual

/-- An entry that can be read adds to its directory only. -/
theorem grown_restore {now : Instant} {loose : List InodeId} {v w : Volume} {directory : InodeId}
    (h : Forest loose v) (hDirectory : v.isDirectory directory = true) :
    (entry : Snapshot) → restore now v directory entry = .ok w →
      Forest loose w ∧ Grown directory v w
  | ⟨kind, name, created, modified, content, children⟩, hw => by
    simp only [restore, check_eq_ok, bind_eq_ok] at hw
    obtain ⟨name, _, hNew, kind, _, hRest⟩ := hw
    have hName : name ∉ (v.entries directory).map Prod.fst :=
      child?_eq_none_iff.mp (by simpa using hNew)
    split at hRest
    · have hShape := sameShape_restoreTimes hRest
      have hMade : Inserted v _ _ := inserted_insert v
        (show (Inode.mk name (some directory) now now (.file (content.getD []))).entries = [] from rfl)
      obtain ⟨hForest, hGrown, _⟩ :=
        h.entered hMade (h.inserted hMade) (Grown.refl _ _) hDirectory hName
      exact ⟨hForest.sameShape hShape, hGrown.trans (hShape.grown directory)⟩
    · simp only [bind_eq_ok] at hRest
      obtain ⟨filled, hAll, hTimes⟩ := hRest
      have hShape := sameShape_restoreTimes hTimes
      have hMade : Inserted v _ _ := inserted_insert v
        (show (Inode.mk name (some directory) now now (.directory [])).entries = [] from rfl)
      obtain ⟨hFilled, hInner⟩ :=
        grown_restoreAll (h.inserted hMade) (isDirectory_insert v _) children hAll
      obtain ⟨hForest, hGrown, _⟩ := h.entered hMade hFilled hInner hDirectory hName
      exact ⟨hForest.sameShape hShape, hGrown.trans (hShape.grown directory)⟩

/-- Restoring a list of children adds inodes below the directory and touches nothing else: the
recursion is that of the restoration itself. -/
theorem grown_restoreAll {now : Instant} {loose : List InodeId} {v w : Volume}
    {directory : InodeId} (h : Forest loose v) (hDirectory : v.isDirectory directory = true) :
    (entries : List Snapshot) → restoreAll now v directory entries = .ok w →
      Forest loose w ∧ Grown directory v w
  | [], hw => by
    rw [restoreAll] at hw
    cases hw
    exact ⟨h, Grown.refl _ _⟩
  | entry :: entries, hw => by
    rw [restoreAll, bind_eq_ok] at hw
    obtain ⟨middle, hFirst, hRest⟩ := hw
    obtain ⟨hMiddle, hGrown⟩ := grown_restore h hDirectory entry hFirst
    obtain ⟨hLast, hLater⟩ :=
      grown_restoreAll hMiddle (hGrown.isDirectory _ hDirectory) entries hRest
    exact ⟨hLast, hGrown.trans hLater⟩

end

/-- A snapshot that can be read gives a sound volume. -/
theorem sound_toVolume {now : Instant} {snapshot : Snapshot} {w : Volume}
    (hw : snapshot.toVolume now = .ok w) : Sound w := by
  simp only [toVolume, check_eq_ok, bind_eq_ok] at hw
  obtain ⟨_, filled, hAll, hTimes⟩ := hw
  have hStart := sound_fresh now
  obtain ⟨hForest, hGrown⟩ :=
    grown_restoreAll hStart.forest hStart.forest.rootDirectory snapshot.children hAll
  exact (hStart.grown hForest hGrown).sameShape (sameShape_restoreTimes hTimes)

end Snapshot

end TreeShell
