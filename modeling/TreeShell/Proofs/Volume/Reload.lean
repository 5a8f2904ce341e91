import TreeShell.Proofs.Volume.Address
import TreeShell.Proofs.Volume.Answers
import TreeShell.Proofs.Volume.Restore

/-! Saving and restoring cannot be observed. A volume that operations lead to is given back
by its snapshot but for the numbers of its inodes, since a snapshot determines a volume up to
these; and from then on both volumes give the same answers. -/
namespace TreeShell.Volume

open Snapshot

/-- Inodes of two volumes that the same names lead to. -/
inductive Facing (v w : Volume) : InodeId → InodeId → Prop where
  | here : Facing v w root root
  | down {d e x y : InodeId} {name : Text} (prior : Facing v w d e)
      (left : (name, x) ∈ v.entries d) (right : (name, y) ∈ w.entries e) : Facing v w x y

theorem Facing.symm {v w : Volume} {x y : InodeId} (h : Facing v w x y) : Facing w v y x := by
  induction h with
  | here => exact .here
  | down _ left right ih => exact .down ih right left

/-- At most one inode of a reloaded volume faces a given one, since addresses are unique. -/
theorem Facing.unique {v w : Volume} (hv : Forest [] v) (hw : Forest [] w) {x y z : InodeId}
    (h : Facing v w x y) (hOther : Facing v w x z) : y = z := by
  induction h generalizing z with
  | here =>
      cases hOther with
      | here => rfl
      | down _ left _ => exact absurd left (hv.top_not_listed (List.mem_singleton_self _))
  | @down d e x y name prior left right ih =>
      cases hOther with
      | here => exact absurd left (hv.top_not_listed (List.mem_singleton_self _))
      | @down d' e' _ _ name' prior' left' right' =>
          obtain rfl := hv.directory_unique left left'
          obtain rfl := ih prior'
          have hName := (hv.entry d name x left).2.2.1.symm.trans (hv.entry d name' x left').2.2.1
          exact hw.id_unique right (hName ▸ right')

theorem Facing.holds {v w : Volume} (hv : Forest [] v) {x y : InodeId} (h : Facing v w x y) :
    v.Holds x := by
  cases h with
  | here => exact holds_of_isDirectory hv.rootDirectory
  | down _ left _ => exact (hv.entry _ _ _ left).2.1

/-- What is written down of two inodes is the same, all the way down. -/
def SameSnapshot (v w : Volume) (x y : InodeId) : Prop :=
  ∃ bound limit, Shallow v bound x ∧ Shallow w limit y ∧ ofWithin v bound x = ofWithin w limit y

section SameSnapshot

variable {v w : Volume} (hv : Forest [] v) (hw : Forest [] w)
include hv hw

/-- The children of such inodes are listed under the same names, and are alike again. -/
theorem SameSnapshot.children {x y : InodeId} (h : SameSnapshot v w x y) (hx : v.Holds x)
    (hy : w.Holds y) :
    List.Forall₂ (SameEntry (SameSnapshot v w)) (v.entries x) (w.entries y) := by
  obtain ⟨bound, limit, hLeft, hRight, hSame⟩ := h
  obtain ⟨bound, rfl⟩ := hLeft.pos
  obtain ⟨limit, rfl⟩ := hRight.pos
  obtain ⟨left, hNode⟩ := Volume.holds_iff.mp hx
  obtain ⟨right, hOther⟩ := Volume.holds_iff.mp hy
  have hChildren : (v.entries x).map (fun entry => ofWithin v bound entry.2) =
      (w.entries y).map (fun entry => ofWithin w limit entry.2) := by
    rw [ofWithin, ofWithin, hNode, hOther] at hSame
    rw [entries, entries, hNode, hOther]
    exact congrArg Snapshot.children hSame
  rw [← List.forall₂_eq_eq_eq, List.forall₂_map_left_iff, List.forall₂_map_right_iff] at hChildren
  refine forall₂_of_mem hChildren fun a ha b hb hab => ?_
  obtain ⟨_, hHeld, hName, _⟩ := hv.entry x a.1 a.2 ha
  obtain ⟨_, hPartner, hNamed, _⟩ := hw.entry y b.1 b.2 hb
  have hDown := hLeft.child ha
  have hBelow := hRight.child hb
  refine ⟨?_, bound, limit, hDown, hBelow, hab⟩
  have hNames := congrArg Snapshot.name hab
  rw [name_ofWithin hHeld hDown, name_ofWithin hPartner hBelow, hName, hNamed] at hNames
  exact Option.some.inj hNames

theorem Facing.sameSnapshot (hSame : ofVolume v = ofVolume w) {x y : InodeId}
    (h : Facing v w x y) : SameSnapshot v w x y := by
  induction h with
  | here =>
      exact ⟨_, _, hv.shallow (holds_of_isDirectory hv.rootDirectory),
        hw.shallow (holds_of_isDirectory hw.rootDirectory), hSame⟩
  | @down d e x y name prior left right ih =>
      have hListed := ih.children hv hw (prior.holds hv) (prior.symm.holds hw)
      obtain ⟨z, hz, hPair⟩ := exists_partner hListed left
      rwa [hw.id_unique right hz]

/-- Children of inodes that face each other face each other in order. -/
theorem Facing.children (hSame : ofVolume v = ofVolume w) {x y : InodeId} (h : Facing v w x y) :
    List.Forall₂ (SameEntry (Facing v w)) (v.entries x) (w.entries y) := by
  have hListed := (h.sameSnapshot hv hw hSame).children hv hw (h.holds hv) (h.symm.holds hw)
  refine forall₂_of_mem hListed ?_
  rintro ⟨name, a⟩ ha ⟨other, b⟩ hb ⟨hName, _⟩
  obtain rfl : name = other := hName
  exact ⟨rfl, h.down ha hb⟩

/-- Inodes that face each other have parents that do, or are both the root. -/
theorem Facing.parents {x y : InodeId} (h : Facing v w x y) :
    Option.Rel (Facing v w) (v.parentOf? x) (w.parentOf? y) := by
  cases h with
  | here =>
      rw [hv.rootParent, hw.rootParent]
      exact .none
  | down prior left right =>
      rw [(hv.entry _ _ _ left).2.2.2, (hw.entry _ _ _ right).2.2.2]
      exact .some prior

end SameSnapshot

/-- Inodes that are written down alike differ in numbers only. -/
theorem sameNode_of_facing {v w : Volume} (hv : Forest [] v) (hw : Forest [] w)
    (hLeft : Tidy Instant.Readable v) (hRight : Tidy Instant.Readable w) (hSame : ofVolume v = ofVolume w) {x y : InodeId} (h : Facing v w x y) :
    Option.Rel (SameNode (Facing v w)) (v.get? x) (w.get? y) := by
  obtain ⟨left, hNode⟩ := Volume.holds_iff.mp (h.holds hv)
  obtain ⟨right, hOther⟩ := Volume.holds_iff.mp (h.symm.holds hw)
  have hListed := h.children hv hw hSame
  have hParent := h.parents hv hw
  obtain ⟨bound, limit, hShallow, hDepth, hWritten⟩ := h.sameSnapshot hv hw hSame
  obtain ⟨bound, rfl⟩ := hShallow.pos
  obtain ⟨limit, rfl⟩ := hDepth.pos
  have hFits := hLeft.fits x left hNode
  have hFacing := hRight.fits y right hOther
  rw [ofWithin, ofWithin, hNode, hOther] at hWritten
  rw [entries, entries, hNode, hOther] at hListed
  rw [parentOf?, parentOf?, hNode, hOther] at hParent
  obtain ⟨name, parent, created, modified, body⟩ := left
  obtain ⟨_, _, born, changed, other⟩ := right
  injection hWritten with hKind hName hCreated hModified hContent _
  rw [hNode, hOther]
  refine .some ⟨Option.some.inj hName, hParent, ?_, ?_, ?_⟩
  · exact hFits.created.eq_of_render_eq hFacing.created (Option.some.inj hCreated)
  · exact hFits.modified.eq_of_render_eq hFacing.modified (Option.some.inj hModified)
  · cases body with
    | file content =>
        cases other with
        | file text =>
            obtain rfl : content = text := Option.some.inj hContent
            exact .file content
        | directory listed => cases hContent
    | directory listed =>
        cases other with
        | file text => cases hContent
        | directory others => exact .directory hListed

/-- A snapshot determines a tidy volume up to the numbers of its inodes. -/
theorem alike_of_ofVolume_eq {v w : Volume} (hv : Forest [] v) (hw : Forest [] w)
    (hLeft : Tidy Instant.Readable v) (hRight : Tidy Instant.Readable w) (hSame : ofVolume v = ofVolume w) :
    Alike (Facing v w) { v with cwd := root } { w with cwd := root } where
  unique := ⟨fun _ _ _ ha hb => ha.symm.unique hw hv hb.symm, fun _ _ _ ha hb => ha.unique hv hw hb⟩
  bounded h := ⟨(h.holds hv).lt, (h.symm.holds hw).lt⟩
  root := .here
  cwd := .here
  node h := sameNode_of_facing hv hw hLeft hRight hSame h

/-- Whatever was current before, the path of a directory makes it current. -/
theorem changeDirectory_currentPath {v : Volume} (hTidy : Tidy Instant.Readable v)
    (hSound : Sound v) : changeDirectory { v with cwd := root } v.currentPath = .ok v := by
  have hLookup : lookup { v with cwd := root } v.currentPath = .ok v.cwd :=
    hTidy.lookupFrom_pathOf hSound.forest root (holds_of_isDirectory hSound.cwdDirectory)
  have hSome : v.currentPath.isEmpty = false := rfl
  have hKind : isDirectory { v with cwd := root } v.cwd = true := hSound.cwdDirectory
  simp only [changeDirectory, hSome, hLookup, hKind, ok_bind, Bool.not_true, Bool.false_eq_true,
    if_false]
  rfl

/-- A volume that operations lead to, under a clock whose times can be read back. What is
restored is a snapshot that was taken of such a volume. -/
inductive Reached : Volume → Prop where
  | fresh {start : Instant} (clock : start.Readable) : Reached (fresh start)
  | perform {v : Volume} {now : Instant} {operation : Operation} (prior : Reached v)
      (clock : now.Readable) (other : ∀ written, operation ≠ .restore written) :
      Reached (v.perform now operation).2
  | restore {v u : Volume} {now : Instant} {id : InodeId} (prior : Reached v) (taken : Reached u)
      (clock : now.Readable) : Reached (v.perform now (.restore (ofInode u id))).2

/-- A history without restoring, at times that can be written, reaches what it ends in. -/
theorem Reached.after {v : Volume} (h : Reached v) {history : List (Instant × Operation)}
    (hSteps : ∀ step ∈ history, step.1.Readable ∧ ∀ written, step.2 ≠ .restore written) :
    Reached (v.after history) := by
  induction history generalizing v with
  | nil => exact h
  | cons step history ih =>
      obtain ⟨clock, other⟩ := hSteps step (List.mem_cons_self ..)
      exact ih (h.perform clock other) fun later hLater => hSteps later (List.mem_cons_of_mem _ hLater)

theorem Reached.sound {v : Volume} (h : Reached v) : Sound v := by
  induction h with
  | fresh clock => exact sound_fresh _
  | perform _ _ _ ih => exact ih.perform _ _
  | restore _ _ _ ih _ => exact ih.perform _ _

/-- Every name in a reached volume came from a path or from a restored tree, and every time from the
clock. -/
theorem Reached.tidy {v : Volume} (h : Reached v) : Tidy Instant.Readable v := by
  induction h with
  | fresh clock => exact tidy_fresh clock
  | perform prior clock other ih =>
      exact ih.perform prior.sound clock
        (fun written _ hRestore => absurd hRestore (other written))
        (fun _ hw => tidy_toVolume prior.sound.forest ih clock hw)
  | restore prior taken clock ih ihTaken =>
      refine ih.perform prior.sound clock (fun written w hRestore hw => ?_)
        (fun _ hw => tidy_toVolume prior.sound.forest ih clock hw)
      cases hRestore
      exact tidy_toVolume taken.sound.forest ihTaken clock hw

theorem withName_eq {written : Snapshot} {name : Option Text} (h : written.name = name) :
    { written with name := name } = written := by
  cases written
  cases h
  rfl

/-- The snapshot of a whole volume is read without a fault and is shown by what is read. -/
theorem exists_reloaded {v : Volume} (hSound : Sound v) (hTidy : Tidy Instant.Readable v) {now : Instant}
    (hNow : now.Readable) :
    ∃ u, (ofVolume v).toVolume now = .ok u ∧ Tidy Instant.Readable u ∧ u.cwd = root ∧ ofVolume v = ofVolume u := by
  obtain ⟨u, hu, hKept, hCwd, hShown⟩ :=
    exists_toVolume_ofInode hSound.forest hTidy hNow hSound.forest.rootDirectory
  refine ⟨u, hu, hKept, hCwd, ?_⟩
  have hRead := sound_toVolume hu
  have hHeld := holds_of_isDirectory hSound.forest.rootDirectory
  have hRoot := holds_of_isDirectory hRead.forest.rootDirectory
  have hName : (ofInode v root).name = some [] := by
    rw [ofInode, name_ofWithin hHeld (hSound.forest.shallow hHeld), nameOf]
    obtain ⟨node, hNode⟩ := Volume.holds_iff.mp hHeld
    rw [hNode]
    exact congrArg some ((hTidy.fits root node hNode).rootName rfl)
  -- The two tables may differ in size; both snapshots are complete at the larger bound.
  have hDeep : Shallow u (max v.slots.size u.slots.size) root :=
    fun steps x hLeads => Nat.lt_of_lt_of_le (hRead.forest.shallow hRoot steps x hLeads)
      (Nat.le_max_right ..)
  have hComplete := hRead.alike_self.ofWithin_eq ⟨rfl, hRoot⟩ (hRead.forest.shallow hRoot) hDeep
  calc ofVolume v = { ofInode v root with name := some [] } := (withName_eq hName).symm
    _ = ofWithin u (max v.slots.size u.slots.size) root := (hShown _ (Nat.le_max_left ..)).symm
    _ = ofVolume u := hComplete.symm

/-- Restoring the snapshot that was just taken, and going back to the current directory, cannot
be observed: the snapshot and the current path stay, and so does every later answer. -/
theorem answers_restored {v : Volume} (h : Reached v) {now : Instant} (clock : now.Readable) :
    ∃ u w, v.perform now (.restore (ofVolume v)) = (.ok .nothing, u) ∧
      u.perform now (.changeDirectory v.currentPath) = (.ok .nothing, w) ∧
      ofVolume w = ofVolume v ∧ w.currentPath = v.currentPath ∧
      ∀ operations, w.answers operations = v.answers operations := by
  obtain ⟨u, hu, hKept, hCwd, hSame⟩ := exists_reloaded h.sound h.tidy clock
  have hRead := sound_toVolume hu
  have hAlike := alike_of_ofVolume_eq h.sound.forest hRead.forest h.tidy hKept hSame
  have hBack := hAlike.changeDirectory v.currentPath
  have hReset : { u with cwd := root } = u := by rw [← hCwd]
  rw [changeDirectory_currentPath h.tidy h.sound, hReset] at hBack
  generalize hOutcome : u.changeDirectory v.currentPath = outcome at hBack
  cases hBack with
  | @result _ w hFinal =>
      have hLast := hRead.changeDirectory hOutcome
      refine ⟨u, w, ?_, ?_, ?_, ?_, ?_⟩
      · rw [perform, hu]
        rfl
      · rw [perform, hOutcome]
        rfl
      · exact (hFinal.ofInode_eq h.sound hLast hFinal.root
          (holds_of_isDirectory h.sound.forest.rootDirectory)).symm
      · exact (hFinal.currentPath_eq h.sound hLast).symm
      · exact fun operations => (hFinal.answers_eq h.sound hLast operations).symm

/-- After a removal the numbers are given out anew, and the current directory is not the root. -/
theorem answers_restored_after_removal :
    let now := Instant.origin
    let v := (fresh now).after [(now, .createFile "/x" "1"), (now, .createDirectories "/a/b"),
      (now, .writeFile "/a/f" "hi" false), (now, .remove "/x" false), (now, .changeDirectory "/a/b")]
    Reached v ∧ now.Readable ∧ v.child? root "a" = some 2 ∧ v.currentPath = "/a/b" ∧
      ∃ u w, v.perform now (.restore (ofVolume v)) = (.ok .nothing, u) ∧
        u.perform now (.changeDirectory v.currentPath) = (.ok .nothing, w) ∧
        ofVolume w = ofVolume v ∧ w.currentPath = v.currentPath ∧
        ∀ operations, w.answers operations = v.answers operations := by
  intro now v
  have clock : now.Readable := show Instant.parse Instant.origin.render = .ok Instant.origin by rfl
  have hReached : Reached v := by
    refine (Reached.fresh clock).after fun step hStep => ?_
    simp only [List.mem_cons, List.not_mem_nil, or_false] at hStep
    rcases hStep with rfl | rfl | rfl | rfl | rfl <;> exact ⟨clock, nofun⟩
  exact ⟨hReached, clock, by decide +kernel, by decide +kernel, answers_restored hReached clock⟩

end TreeShell.Volume
