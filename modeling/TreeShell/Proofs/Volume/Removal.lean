import TreeShell.Proofs.Volume.Frame

/-! Removing takes one inode out of the table with all that is below it, and nothing else. What is
discarded is found on the way down and what is asked before on the way up, and both are the same
inodes, since children and parents agree. -/
namespace TreeShell.Volume

/-- An inode is gone with all that is below it; only its directory is changed. -/
structure Pruned (v w : Volume) (directory id : InodeId) : Prop where
  holds : ∀ x, w.Holds x ↔ v.Holds x ∧ ∀ steps, ¬ Leads v id steps x
  inodes : ∀ x, w.Holds x → x ≠ directory → w.get? x = v.get? x
  entries : ∀ d, w.Holds d → w.entries d = (v.entries d).filter (·.2 != id)
  isDirectory : ∀ x, w.Holds x → w.isDirectory x = v.isDirectory x
  content? : ∀ x, w.Holds x → w.content? x = v.content? x

/-- Emptying the slots of a subtree that has been taken out leaves the tree without it. -/
theorem Forest.pruned {v : Volume} (h : Forest [] v) {directory id : InodeId}
    (hUp : v.parentOf? id = some directory) (now : Instant) :
    Pruned v ((v.unlink now id).discard (v.subtree id)) directory id := by
  have hHeld : v.Holds id := (h.entry _ _ _ (h.parentOf?_eq_some.mp hUp)).2.1
  have hLoose := h.relinked_unlink hUp now
  have hGet := get?_discard (v.unlink now id) (v.subtree id)
  have hHolds : ∀ x, ((v.unlink now id).discard (v.subtree id)).Holds x ↔
      v.Holds x ∧ ∀ steps, ¬ Leads v id steps x := by
    intro x
    rw [(discarded_discard (v.unlink now id) (v.subtree id)).holds, hLoose.holds, h.mem_subtree hHeld,
      not_exists, and_comm]
  -- An inode that is still there is the one that it was before the slots were emptied.
  have hKept : ∀ x, ((v.unlink now id).discard (v.subtree id)).Holds x →
      x ≠ id ∧ ((v.unlink now id).discard (v.subtree id)).get? x = (v.unlink now id).get? x := by
    intro x hx
    have hOut := ((hHolds x).mp hx).2
    have hNotMem : x ∉ v.subtree id := by
      intro hMem
      obtain ⟨steps, hLeads⟩ := (h.mem_subtree hHeld).mp hMem
      exact hOut steps hLeads
    refine ⟨?_, by rw [hGet, if_neg hNotMem]⟩
    rintro rfl
    exact hOut 0 .here
  refine ⟨hHolds, fun x hx hOther => ?_, fun d hd => ?_, fun x hx => ?_, fun x hx => ?_⟩
  · obtain ⟨hNe, hSame⟩ := hKept x hx
    rw [hSame, get?_unlink v now hUp (h.parent_ne hUp), if_neg hNe, if_neg hOther]
  · rw [entries_congr (hKept d hd).2, h.entries_unlink hUp]
  · rw [isDirectory_congr (hKept x hx).2, hLoose.isDirectory]
  · rw [content?_congr (hKept x hx).2, h.content?_unlink hUp]

section Pruned

variable {v w : Volume} {directory id : InodeId} (h : Pruned v w directory id)
include h

theorem Pruned.withCwd (cwd : InodeId) : Pruned v { w with cwd := cwd } directory id :=
  ⟨h.holds, h.inodes, h.entries, h.isDirectory, h.content?⟩

/-- An entry on the way to an inode that is still there is still there. -/
theorem Pruned.listed {d child x : InodeId} {name : Text} {steps : Nat} (hx : w.Holds x)
    (hListed : (name, child) ∈ v.entries d) (hLeads : Leads v child steps x) :
    (name, child) ∈ w.entries d := by
  have hOut := ((h.holds x).mp hx).2
  have hHeld : w.Holds d := by
    refine (h.holds d).mpr ⟨holds_of_isDirectory (isDirectory_of_entry hListed), fun count hAbove => ?_⟩
    exact hOut _ ((hAbove.down hListed).trans hLeads)
  rw [h.entries d hHeld, List.mem_filter]
  refine ⟨hListed, bne_iff_ne.mpr ?_⟩
  rintro rfl
  exact hOut steps hLeads

theorem Pruned.stays (hv : Forest [] v) (hw : Forest [] w) {x : InodeId} (hx : w.Holds x) :
    Stays v w x :=
  ⟨hx, hv.pathOf_keep hw ((h.holds x).mp hx).1 fun _ _ _ _ hListed hLeads => h.listed hx hListed hLeads,
    h.isDirectory x hx, h.content? x hx⟩

end Pruned

/-- What removing an inode does: it is gone with all that is below it, every other inode stays, and
the other children of its directory stay in their order. -/
structure Severed (v w : Volume) (id : InodeId) : Prop where
  holds : ∀ x, w.Holds x ↔ v.Holds x ∧ v.isAncestor id x = false
  stays : ∀ x, w.Holds x → Stays v w x
  entries : ∀ d, w.Holds d → w.entries d = (v.entries d).filter (·.2 != id)
  inodes : ∀ x, w.Holds x → v.parentOf? id ≠ some x → w.get? x = v.get? x
  cwdKept : w.Holds v.cwd → w.cwd = v.cwd
  cwdMoved : ¬ w.Holds v.cwd → v.parentOf? id = some w.cwd
  size : w.slots.size = v.slots.size

theorem Forest.isAncestor_eq_false_iff {v : Volume} (h : Forest [] v) {id x : InodeId}
    (hId : v.Holds id) : v.isAncestor id x = false ↔ ∀ steps, ¬ Leads v id steps x := by
  rw [← Bool.not_eq_true, h.isAncestor_iff hId, not_exists]

/-- The current directory is asked for before the inode is taken out. -/
theorem Forest.severed {v : Volume} (h : Forest [] v) {id : InodeId} (hId : v.Holds id)
    (hRoot : id ≠ root) (hCwd : v.Holds v.cwd) (now : Instant) :
    Severed v { (v.unlink now id).discard (v.subtree id) with
      cwd := if v.isAncestor id v.cwd then (v.parentOf? id).getD root else v.cwd } id := by
  obtain ⟨directory, hUp, _⟩ := h.exists_listed hId (by simpa using hRoot)
  have hPruned := (h.pruned hUp now).withCwd
    (if v.isAncestor id v.cwd then (v.parentOf? id).getD root else v.cwd)
  have hForest := (h.removed hId hRoot now).forest.withCwd
    (if v.isAncestor id v.cwd then (v.parentOf? id).getD root else v.cwd)
  have hHolds : ∀ x, _ ↔ v.Holds x ∧ v.isAncestor id x = false := fun x =>
    (hPruned.holds x).trans (and_congr_right fun _ => (h.isAncestor_eq_false_iff hId).symm)
  refine ⟨hHolds, fun x hx => hPruned.stays h hForest hx, hPruned.entries, fun x hx hOther => ?_,
    fun hKept => ?_, fun hGone => ?_, ?_⟩
  · refine hPruned.inodes x hx ?_
    rintro rfl
    exact hOther hUp
  · exact if_neg (Bool.not_eq_true _ ▸ ((hHolds v.cwd).mp hKept).2)
  · have hBelow : v.isAncestor id v.cwd = true := by
      rw [← Bool.not_eq_false]
      exact fun hOut => hGone ((hHolds v.cwd).mpr ⟨hCwd, hOut⟩)
    change v.parentOf? id = some (if v.isAncestor id v.cwd then (v.parentOf? id).getD root else v.cwd)
    rw [if_pos hBelow, hUp, Option.getD_some]
  · exact (size_discard _ _).trans (h.relinked_unlink hUp now).size

/-- A removal that succeeds has looked up an inode other than the root, and cuts off exactly its
subtree. -/
theorem Sound.exists_severed {v w : Volume} (h : Sound v) {now : Instant} {path : Text}
    {recursive : Bool} (hw : v.remove now path recursive = .ok w) :
    ∃ id, v.lookup path = .ok id ∧ id ≠ root ∧ (recursive = false → v.entries id = []) ∧
      Severed v w id := by
  simp only [Volume.remove, check_eq_ok, bind_eq_ok] at hw
  obtain ⟨id, hId, hRoot, hEmpty, hSame⟩ := hw
  have hRoot : id ≠ root := by simpa using hRoot
  cases hSame
  refine ⟨id, hId, hRoot, ?_, h.forest.severed (h.holds_lookup hId) hRoot
    (holds_of_isDirectory h.cwdDirectory) now⟩
  rintro rfl
  simpa using hEmpty

/-- Removing deletes one subtree, and nothing else changes. -/
theorem severed_of_remove {v w : Volume} (h : Reachable v) {now : Instant} {path : Text}
    {recursive : Bool} (hw : v.remove now path recursive = .ok w) :
    ∃ id, v.lookup path = .ok id ∧ id ≠ root ∧ Severed v w id ∧
      (recursive = false →
        v.isFile id = true ∨ v.isDirectory id = true ∧ v.entries id = []) := by
  obtain ⟨id, hId, hRoot, hEmpty, hSevered⟩ := h.sound.exists_severed hw
  refine ⟨id, hId, hRoot, hSevered, fun hPlain => ?_⟩
  cases hKind : v.isDirectory id with
  | true => exact Or.inr ⟨rfl, hEmpty hPlain⟩
  | false => exact Or.inl (by rw [(h.sound.holds_lookup hId).isFile_eq, hKind]; rfl)

/-- A directory is removed from below, by a path that goes up, and the current directory with it. -/
theorem severed_of_remove_above :
    let now := Instant.origin
    let v := (fresh now).after [(now, .createDirectories "/a/b/c"), (now, .createFile "/a/b/f" "x"),
      (now, .createFile "/a/g" "y"), (now, .changeDirectory "/a/b/c")]
    ∃ w, v.remove now "../" true = .ok w ∧ w.currentPath = "/a" ∧
      w.listing = ([("/a", none), ("/a/g", some "y")] : List (Text × Option Text)) ∧ Severed v w 2 := by
  intro now v
  have hFound : v.lookup "../" = .ok 2 := resolveFrom?_eq_some.mp (by decide +kernel)
  obtain ⟨w, hw, hSeen⟩ := exists_ok_of_map_toOption
    (show (v.remove now "../" true).toOption.map (fun w => (w.currentPath, w.listing)) =
      some (("/a" : Text), ([("/a", none), ("/a/g", some "y")] : List (Text × Option Text))) by decide +kernel)
  obtain ⟨id, hId, _, hSevered, _⟩ := severed_of_remove (reachable_after now _) hw
  obtain rfl : (2 : InodeId) = id := Except.ok.inj (hFound.symm.trans hId)
  obtain ⟨hPath, hListing⟩ := Prod.mk.inj hSeen
  exact ⟨w, hw, hPath, hListing, hSevered⟩

end TreeShell.Volume
