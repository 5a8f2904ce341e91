import TreeShell.Proofs.Volume.Removal

/-! Moving puts an inode, with all that is below it, at the end of a directory. It does so in two
steps: a file that stands in its place is removed, and then the inode is taken out of its directory
and entered into the other. What each of them leaves alone is said of the step by itself; what a
move leaves alone follows from both. -/
namespace TreeShell.Volume

/-! ## Making way -/

/-- The inode that makes way for another one at a place: what stands there, if it is not that one. -/
def GivesWay (v : Volume) (node directory : InodeId) (name : Text) (x : InodeId) : Prop :=
  v.child? directory name = some x ∧ x ≠ node

/-- A place is free for an inode. What stood there is gone, and it was a file. -/
structure Cleared (v u : Volume) (node directory : InodeId) (name : Text) : Prop where
  sound : Sound u
  movable : Movable u node directory
  free : ∀ x, (name, x) ∈ u.entries directory → x = node
  holds : ∀ x, u.Holds x ↔ v.Holds x ∧ ¬ GivesWay v node directory name x
  isFile : ∀ x, GivesWay v node directory name x → v.isFile x = true
  stays : ∀ x, u.Holds x → Stays v u x
  inodes : ∀ x, u.Holds x → x ≠ directory → u.get? x = v.get? x
  listed : u.entries directory =
    (v.entries directory).filter fun entry => entry.1 != name || entry.2 == node
  below : ∀ steps x, Leads v node steps x → u.get? x = v.get? x
  cwd : u.cwd = v.cwd
  size : u.slots.size = v.slots.size

section Clearing

variable {v : Volume} (h : Sound v) {node directory : InodeId} {name : Text}
  (hMovable : Movable v node directory)
include h hMovable

/-- Where nothing else stands at the destination, nothing has to be cleared. -/
theorem Sound.cleared_of_free (hFree : ∀ x, (name, x) ∈ v.entries directory → x = node) :
    Cleared v v node directory name where
  sound := h
  movable := hMovable
  free := hFree
  holds x := by
    refine ⟨fun hx => ⟨hx, fun hWay => ?_⟩, And.left⟩
    exact hWay.2 (hFree x (mem_entries_of_child? hWay.1))
  isFile x hWay := absurd (hFree x (mem_entries_of_child? hWay.1)) hWay.2
  stays x hx := .refl hx
  inodes x _ _ := rfl
  listed := by
    refine (List.filter_eq_self.mpr fun entry hEntry => ?_).symm
    rw [Bool.or_eq_true, bne_iff_ne, beq_iff_eq]
    by_cases hName : entry.1 = name
    · subst hName
      exact Or.inr (hFree entry.2 hEntry)
    · exact Or.inl hName
  below _ _ _ := rfl
  cwd := rfl
  size := rfl

/-- A file in the way is cleared, and nothing but the file goes with it. -/
theorem Sound.cleared_of_file {existing : InodeId} (hListed : (name, existing) ∈ v.entries directory)
    (hFile : v.isDirectory existing = false) (hOther : existing ≠ node) (now : Instant) :
    Cleared v ((v.unlink now existing).discard (v.subtree existing)) node directory name := by
  obtain ⟨hSound, hStill, hFree⟩ := h.cleared hMovable hListed hFile (Ne.symm hOther) now
  obtain ⟨hTop, hHeld, _, hUp⟩ := h.forest.entry directory name existing hListed
  have hPruned := h.forest.pruned hUp now
  -- Nothing is below a file, so that it alone gives way.
  have hWay : ∀ x, GivesWay v node directory name x ↔ x = existing := by
    intro x
    rw [GivesWay, h.forest.child?_eq hListed, Option.some.injEq]
    exact ⟨fun hWay => hWay.1.symm, by rintro rfl; exact ⟨rfl, hOther⟩⟩
  have hHolds : ∀ x, ((v.unlink now existing).discard (v.subtree existing)).Holds x ↔
      v.Holds x ∧ ¬ GivesWay v node directory name x := by
    intro x
    rw [hPruned.holds, hWay]
    refine and_congr_right fun _ => ⟨fun hOut => ?_, fun hNe steps hLeads => ?_⟩
    · rintro rfl
      exact hOut 0 .here
    · exact hNe (hLeads.eq_of_file hFile)
  refine ⟨hSound, hStill, fun x hx => absurd hx (hFree x), hHolds, ?_, ?_, hPruned.inodes, ?_, ?_, ?_, ?_⟩
  · intro x hx
    obtain rfl := (hWay x).mp hx
    rw [hHeld.isFile_eq, hFile]
    rfl
  · exact fun x hx => hPruned.stays h.forest hSound.forest hx
  · rw [hPruned.entries directory (holds_of_isDirectory hStill.isDirectory), h.forest.filter_id_eq hListed]
    refine List.filter_congr fun entry hEntry => ?_
    rw [Bool.eq_iff_iff, Bool.or_eq_true, bne_iff_ne, beq_iff_eq]
    refine ⟨Or.inl, ?_⟩
    rintro (hName | hNode) rfl
    · exact hName rfl
    · exact hOther ((h.forest.id_unique hListed hEntry).trans hNode)
  · intro steps x hLeads
    have hNe : x ≠ existing := by
      rintro rfl
      cases hLeads with
      | here => exact hOther rfl
      | down prior listed =>
          obtain rfl := h.forest.directory_unique hListed listed
          exact hMovable.notBelow _ prior
    refine hPruned.inodes x ((hHolds x).mpr ⟨h.forest.holds_of_leads hMovable.held hLeads, ?_⟩) ?_
    · rwa [hWay]
    · rintro rfl
      exact hMovable.notBelow steps hLeads
  · exact (h.forest.removed hHeld (by simpa using hTop) now).cwd
  · rw [size_discard, (h.forest.relinked_unlink hUp now).size]

end Clearing

/-! ## Going to another place -/

/-- An inode has gone to the end of a directory under a name. -/
structure Rehung (u w : Volume) (node directory : InodeId) (name : Text) : Prop where
  forest : Forest [] w
  holds : ∀ x, w.Holds x ↔ u.Holds x
  isDirectory : ∀ x, w.isDirectory x = u.isDirectory x
  content? : ∀ x, w.content? x = u.content? x
  nameOf : ∀ x, x ≠ node → w.nameOf x = u.nameOf x
  entries : ∀ d, w.entries d =
    (u.entries d).filter (·.2 != node) ++ if d = directory then [(name, node)] else []
  inodes : ∀ x, x ≠ node → x ≠ directory → u.parentOf? node ≠ some x → w.get? x = u.get? x
  moved : w.get? node = (u.get? node).map fun inode =>
    { inode with name := name, parent := some directory }
  cwd : w.cwd = u.cwd
  size : w.slots.size = u.slots.size

/-- Taking an inode out and entering it elsewhere moves its subtree as it is. -/
theorem Sound.rehung {u : Volume} (h : Sound u) {node directory : InodeId} {name : Text}
    (hMovable : Movable u node directory)
    (hFree : ∀ x, (name, x) ∈ u.entries directory → x = node) (now : Instant) :
    Rehung u ((u.unlink now node).link now directory node name) node directory name := by
  obtain ⟨old, hUp, _⟩ := h.forest.exists_listed hMovable.held (by simpa using hMovable.notRoot)
  have hNe : directory ≠ node := by
    rintro rfl
    exact hMovable.notBelow 0 .here
  have hLoose := h.forest.relinked_unlink hUp now
  have hDirectory : (u.unlink now node).isDirectory directory = true := by
    rw [hLoose.isDirectory, hMovable.isDirectory]
  have hHeld : (u.unlink now node).Holds node := (hLoose.holds node).mpr hMovable.held
  have hLink := relinked_link hDirectory hHeld hNe now name
  have hTaken := get?_unlink u now hUp (h.forest.parent_ne hUp)
  refine ⟨(h.moved hMovable hFree now).forest, fun x => ?_, fun x => ?_, fun x => ?_, fun x hx => ?_,
    fun d => ?_, fun x hx hOther hFormer => ?_, ?_, ?_, ?_⟩
  · rw [hLink.holds, hLoose.holds]
  · rw [hLink.isDirectory, hLoose.isDirectory]
  · rw [content?_link hDirectory hHeld hNe, h.forest.content?_unlink hUp]
  · rw [hLink.nameOf, if_neg hx, hLoose.nameOf, if_neg hx]
  · rw [hLink.entries]
    split
    · rename_i hd
      subst hd
      rw [h.forest.entries_unlink hUp]
    · rw [h.forest.entries_unlink hUp, List.append_nil]
  · have hOld : x ≠ old := by
      rintro rfl
      exact hFormer hUp
    rw [get?_link _ now hNe, if_neg hx, if_neg hOther, hTaken, if_neg hx, if_neg hOld]
  · rw [get?_link _ now hNe, if_pos rfl, hTaken, if_pos rfl, Option.map_map]
    rfl
  · rw [hLink.cwd, hLoose.cwd]
  · rw [hLink.size, hLoose.size]

section Rehung

variable {u w : Volume} {node directory : InodeId} {name : Text} (h : Rehung u w node directory name)
  (hu : Forest [] u) (hMovable : Movable u node directory)
include h

theorem Rehung.listed : (name, node) ∈ w.entries directory := by
  rw [h.entries, if_pos rfl]
  simp

include hu

/-- What is not below the inode stays where it was. -/
theorem Rehung.stays {x : InodeId} (hx : u.Holds x) (hOut : ∀ steps, ¬ Leads u node steps x) :
    Stays u w x := by
  refine ⟨(h.holds x).mpr hx, hu.pathOf_keep h.forest hx ?_, h.isDirectory x, h.content? x⟩
  intro d other child steps hListed hLeads
  rw [h.entries, List.mem_append, List.mem_filter, bne_iff_ne]
  refine Or.inl ⟨hListed, ?_⟩
  rintro rfl
  exact hOut steps hLeads

include hMovable

/-- What is below the inode is walked through as before. -/
theorem Rehung.walkWithin_eq (bound : Nat) (lead : Text) :
    w.walkWithin bound lead node = u.walkWithin bound lead node := by
  refine walkWithin_congr (fun steps x hLeads => ?_) fun steps x hLeads => ?_
  · have hOther : x ≠ directory := by
      rintro rfl
      exact hMovable.notBelow steps hLeads
    rw [h.entries, if_neg hOther, List.append_nil, List.filter_eq_self]
    intro entry hEntry
    rw [bne_iff_ne]
    rintro rfl
    have hCycle := hu.steps_eq_zero hMovable.held (hLeads.down hEntry)
    omega
  · refine h.nameOf x ?_
    rintro rfl
    have hCycle := hu.steps_eq_zero hMovable.held hLeads
    omega

end Rehung

/-! ## The whole move -/

/-- What moving an inode to a place does: it goes there with all that is below it, a file that it
replaces is gone, and everything else stays. -/
structure Relocated (v w : Volume) (node directory : InodeId) (name : Text) : Prop where
  walk : (w.walk node).map (fun (path, id) => (path, id, w.content? id)) =
    (v.walk node).map fun (path, id) => (path, id, v.content? id)
  moved : w.get? node = (v.get? node).map fun inode =>
    { inode with name := name, parent := some directory }
  pathOf : w.pathOf node = (if directory = root then [] else v.pathOf directory) ++ chr '/' :: name
  listed : w.entries directory =
    ((v.entries directory).filter fun entry => entry.2 != node && entry.1 != name) ++ [(name, node)]
  entries : ∀ d, w.Holds d → d ≠ directory → w.entries d = (v.entries d).filter (·.2 != node)
  holds : ∀ x, w.Holds x ↔ v.Holds x ∧ ¬ GivesWay v node directory name x
  isFile : ∀ x, GivesWay v node directory name x → v.isFile x = true
  stays : ∀ x, w.Holds x → v.isAncestor node x = false → Stays v w x
  inodes : ∀ x, w.Holds x → x ≠ node → x ≠ directory → v.parentOf? node ≠ some x →
    w.get? x = v.get? x
  cwd : w.cwd = v.cwd
  size : w.slots.size = v.slots.size

section Cleared

variable {v u w : Volume} {node directory : InodeId} {name : Text}
  (h : Cleared v u node directory name) (hw : Rehung u w node directory name)
include h

/-- Clearing a destination adds no entry anywhere. -/
theorem Cleared.entries_subset (d : InodeId) : u.entries d ⊆ v.entries d := by
  by_cases hHeld : u.Holds d
  · by_cases hd : d = directory
    · rw [hd, h.listed]
      exact List.filter_sublist.subset
    · rw [entries_congr (h.inodes d hHeld hd)]
      exact List.Subset.refl _
  · rw [entries_of_not_holds hHeld]
    exact List.nil_subset _

include hw

/-- Neither of the two steps changes anything below the inode. -/
theorem Cleared.walk_eq : (w.walk node).map (fun (path, id) => (path, id, w.content? id)) =
    (v.walk node).map fun (path, id) => (path, id, v.content? id) := by
  have hWalk : w.walk node = v.walk node := by
    rw [walk, hw.size, h.size, hw.walkWithin_eq h.sound.forest h.movable]
    exact walkWithin_congr (fun steps x hLeads => entries_congr (h.below steps x hLeads))
      fun steps x hLeads => nameOf_congr (h.below (steps + 1) x hLeads)
  rw [hWalk]
  refine List.map_congr_left fun found hFound => ?_
  obtain ⟨steps, hLeads⟩ := leads_of_mem_walkWithin hFound
  change (found.1, found.2, w.content? found.2) = (found.1, found.2, v.content? found.2)
  rw [hw.content?, content?_congr (h.below _ _ hLeads)]

/-- A place is free once what stood there has made way, and the inode goes there. -/
theorem Cleared.relocated (hv : Sound v) (hMovable : Movable v node directory) :
    Relocated v w node directory name := by
  have hu := h.sound.forest
  have hNode : u.get? node = v.get? node := h.below 0 node .here
  have hDirectory : u.Holds directory := holds_of_isDirectory h.movable.isDirectory
  refine ⟨h.walk_eq hw, by rw [hw.moved, hNode], ?_, ?_, fun d hd hOther => ?_,
    fun x => (hw.holds x).trans (h.holds x), h.isFile, fun x hx hOut => ?_,
    fun x hx hSelf hOther hFormer => ?_, hw.cwd.trans h.cwd, hw.size.trans h.size⟩
  · rw [hw.forest.pathOf_child hw.listed, (hw.stays hu hDirectory h.movable.notBelow).pathOf,
      (h.stays directory hDirectory).pathOf]
  · rw [hw.entries, if_pos rfl, h.listed, List.filter_filter]
    refine congrArg (· ++ [(name, node)]) (List.filter_congr fun entry _ => ?_)
    cases hSame : entry.2 == node <;> simp [bne, hSame]
  · rw [hw.entries, if_neg hOther, List.append_nil,
      entries_congr (h.inodes d ((hw.holds d).mp hd) hOther)]
  · rw [hv.forest.isAncestor_eq_false_iff hMovable.held] at hOut
    have hHeld := (hw.holds x).mp hx
    exact (h.stays x hHeld).trans
      (hw.stays hu hHeld fun steps hLeads => hOut steps (hLeads.mono h.entries_subset))
  · rw [hw.inodes x hSelf hOther, h.inodes x ((hw.holds x).mp hx) hOther]
    rwa [parentOf?_congr hNode]

end Cleared

/-- What happens when an inode is moved: a place is found and freed, and the inode goes there. -/
theorem Sound.exists_cleared {v w : Volume} (h : Sound v) {now : Instant} {source target : Text}
    {node : InodeId} (hw : v.move now source target = .ok (node, w)) :
    ∃ directory name u, v.lookup source = .ok node ∧
      v.destination node target = .ok (directory, name) ∧ Movable v node directory ∧
      Cleared v u node directory name ∧ w = (u.unlink now node).link now directory node name := by
  simp only [Volume.move, check_eq_ok, bind_eq_ok] at hw
  obtain ⟨found, hFound, hRoot, ⟨directory, name⟩, hPlace, hAbove, hRest⟩ := hw
  have hHeld := h.holds_lookup hFound
  have hMovable : Movable v found directory := by
    refine ⟨hHeld, by simpa using hRoot, isDirectory_of_destination hPlace, fun steps hLeads => ?_⟩
    exact hAbove ((h.forest.isAncestor_iff hHeld).mpr ⟨steps, hLeads⟩)
  split at hRest
  · rename_i existing hChild
    have hListed := mem_entries_of_child? hChild
    split at hRest
    · rename_i hSame
      obtain rfl := beq_iff_eq.mp hSame
      cases hRest
      exact ⟨directory, name, v, hFound, hPlace, hMovable,
        h.cleared_of_free hMovable fun x hx => h.forest.id_unique hx hListed, rfl⟩
    · rename_i hOther
      split at hRest
      · cases hRest
      · rename_i hFile
        split at hRest
        · cases hRest
        · cases hRest
          exact ⟨directory, name, _, hFound, hPlace, hMovable,
            h.cleared_of_file hMovable hListed (by simpa using hFile) (by simpa using hOther) now, rfl⟩
  · rename_i hChild
    cases hRest
    refine ⟨directory, name, v, hFound, hPlace, hMovable,
      h.cleared_of_free hMovable fun x hx => ?_, rfl⟩
    rw [h.forest.child?_eq hx] at hChild
    cases hChild

/-- A move that succeeds has looked up its source and its destination, and relocated the one to the
other. -/
theorem Sound.exists_relocated {v w : Volume} (h : Sound v) {now : Instant} {source target : Text}
    {node : InodeId} (hw : v.move now source target = .ok (node, w)) :
    ∃ directory name, v.lookup source = .ok node ∧
      v.destination node target = .ok (directory, name) ∧ Relocated v w node directory name := by
  obtain ⟨directory, name, u, hSource, hPlace, hMovable, hCleared, rfl⟩ := h.exists_cleared hw
  have hRehung := hCleared.sound.rehung hCleared.movable hCleared.free now
  exact ⟨directory, name, hSource, hPlace, hCleared.relocated hRehung h hMovable⟩

/-- Moving puts an inode in another place, and nothing else changes. -/
theorem relocated_of_move {v w : Volume} (h : Reachable v) {now : Instant} {source target : Text}
    {node : InodeId} (hw : v.move now source target = .ok (node, w)) :
    ∃ directory name, v.lookup source = .ok node ∧
      v.destination node target = .ok (directory, name) ∧ Relocated v w node directory name :=
  h.sound.exists_relocated hw

/-- A directory is moved onto itself, and a file over another one. -/
theorem relocated_of_move_onto :
    let now := Instant.origin
    let v := (fresh now).after [(now, .createDirectories "/a/b"), (now, .createFile "/a/b/f" "x"),
      (now, .createFile "/a/g" "y"), (now, .changeDirectory "/a")]
    (∃ w, v.move now "b" "../a" = .ok (2, w) ∧ Relocated v w 2 1 "b" ∧
      w.listing = ([("/a", none), ("/a/g", some "y"), ("/a/b", none),
        ("/a/b/f", some "x")] : List (Text × Option Text))) ∧
    ∃ w, v.move now "b/f" "./g" = .ok (3, w) ∧ Relocated v w 3 1 "g" ∧ GivesWay v 3 1 "g" 4 ∧
      w.listing = ([("/a", none), ("/a/b", none), ("/a/g", some "x")] : List (Text × Option Text)) := by
  intro now v
  have hReachable : Reachable v := reachable_after now _
  constructor
  · obtain ⟨_, hPlace, rfl⟩ := exists_ok_of_map_toOption
      (show (v.destination 2 "../a").toOption.map id = some (1, ("b" : Text)) by decide +kernel)
    obtain ⟨⟨node, w⟩, hw, hSeen⟩ := exists_ok_of_map_toOption
      (show (v.move now "b" "../a").toOption.map (fun found => (found.1, found.2.listing)) =
        some (2, ([("/a", none), ("/a/g", some "y"), ("/a/b", none),
          ("/a/b/f", some "x")] : List (Text × Option Text))) by decide +kernel)
    obtain ⟨rfl, hListing⟩ := Prod.mk.inj hSeen
    obtain ⟨directory, name, _, hFound, hRelocated⟩ := relocated_of_move hReachable hw
    obtain ⟨rfl, rfl⟩ := Prod.mk.inj (Except.ok.inj (hPlace.symm.trans hFound))
    exact ⟨w, hw, hRelocated, hListing⟩
  · obtain ⟨_, hPlace, rfl⟩ := exists_ok_of_map_toOption
      (show (v.destination 3 "./g").toOption.map id = some (1, ("g" : Text)) by decide +kernel)
    obtain ⟨⟨node, w⟩, hw, hSeen⟩ := exists_ok_of_map_toOption
      (show (v.move now "b/f" "./g").toOption.map (fun found => (found.1, found.2.listing)) =
        some (3, ([("/a", none), ("/a/b", none), ("/a/g", some "x")] : List (Text × Option Text)))
        by decide +kernel)
    obtain ⟨rfl, hListing⟩ := Prod.mk.inj hSeen
    obtain ⟨directory, name, _, hFound, hRelocated⟩ := relocated_of_move hReachable hw
    obtain ⟨rfl, rfl⟩ := Prod.mk.inj (Except.ok.inj (hPlace.symm.trans hFound))
    exact ⟨w, hw, hRelocated, ⟨by decide +kernel, by decide⟩, hListing⟩

end TreeShell.Volume
