import TreeShell.Proofs.Volume.Address

/-! The names that snapshots bring into a volume. Reading a snapshot compares the names of
neighbours and checks nothing else about them, so that the inodes of the volume are named as the
entries are, one after the other. A snapshot that was taken of a volume holds names of that volume
only; hence every volume that operations lead to, with no other snapshots read, is addressed. -/
namespace TreeShell

namespace Snapshot

open Volume

mutual

/-- The names that reading an entry enters, its own first. What stands below a file is not read. -/
def namesIn : Snapshot → List Text
  | ⟨kind, name, _, _, _, children⟩ =>
    name.toList ++ if kind = some fileKind then [] else namesAmong children

/-- The names that reading neighbours enters, in the order in which they are entered. -/
def namesAmong : List Snapshot → List Text
  | [] => []
  | entry :: entries => namesIn entry ++ namesAmong entries

end

theorem mem_namesAmong {name : Text} {entries : List Snapshot} :
    name ∈ namesAmong entries ↔ ∃ entry ∈ entries, name ∈ namesIn entry := by
  induction entries with
  | nil => simp [namesAmong]
  | cons entry entries ih => simp [namesAmong, ih]

/-- A name in a tree is that of its root or stands below it. -/
theorem name_or_mem_of_mem_namesIn {name : Text} {entry : Snapshot} (h : name ∈ namesIn entry) :
    entry.name = some name ∨ name ∈ namesAmong entry.children := by
  obtain ⟨kind, own, created, modified, content, children⟩ := entry
  rw [namesIn, List.mem_append, Option.mem_toList] at h
  rcases h with hOwn | hBelow
  · exact Or.inl hOwn
  · split at hBelow
    · cases hBelow
    · exact Or.inr hBelow

/-- The names in a table, number by number. -/
def slotNames (v : Volume) : List (Option Text) := v.slots.toList.map (Option.map Inode.name)

theorem getElem?_slotNames (v : Volume) (id : InodeId) :
    (slotNames v)[id]? = (v.slots[id]?).map (Option.map Inode.name) := by
  rw [slotNames, List.getElem?_map, Array.getElem?_toList]

theorem slotNames_update {v : Volume} {id : InodeId} {change : Inode → Inode}
    (h : ∀ node, v.get? id = some node → (change node).name = node.name) :
    slotNames (v.update id change) = slotNames v := by
  refine List.ext_getElem? fun x => ?_
  rw [getElem?_slotNames, getElem?_slotNames, update, Array.getElem?_modify]
  split
  · rename_i hx
    subst hx
    cases hSlot : v.slots[id]? with
    | none => rfl
    | some slot =>
        cases slot with
        | none => rfl
        | some node =>
            have hName := h node (by rw [get?, hSlot]; rfl)
            simp [hName]
  · rfl

theorem slotNames_insert (v : Volume) (node : Inode) :
    slotNames (v.insert node).2 = slotNames v ++ [some node.name] := by
  simp [slotNames, Volume.insert]

theorem slotNames_attach {v : Volume} {directory id : InodeId} {name : Text}
    (h : (slotNames v)[id]? = some (some name)) :
    slotNames (v.attach directory id name) = slotNames v := by
  have hFirst : slotNames (v.update directory fun node =>
      { node with body := .directory (node.entries ++ [(name, id)]) }) = slotNames v :=
    slotNames_update fun _ _ => rfl
  rw [attach, slotNames_update, hFirst]
  intro node hNode
  rw [← hFirst, getElem?_slotNames] at h
  obtain ⟨slot, hSlot, hName⟩ := Option.map_eq_some_iff.mp h
  rw [get?, hSlot] at hNode
  obtain rfl : slot = some node := hNode
  exact (Option.some.inj hName).symm

theorem slotNames_restoreTimes {v w : Volume} {id : InodeId} {created modified : Option Text}
    (hw : restoreTimes v id created modified = .ok w) : slotNames w = slotNames v := by
  rw [restoreTimes] at hw
  split at hw
  · simp only [bind_eq_ok] at hw
    obtain ⟨first, _, last, _, hSame⟩ := hw
    cases hSame
    exact slotNames_update fun _ _ => rfl
  · cases hw
    rfl

theorem required_eq_ok {field value : Text} {written : Option Text} :
    required field written = .ok value ↔ written = some value := by
  cases written with
  | none => exact ⟨nofun, nofun⟩
  | some text => exact ⟨fun h => congrArg some (Except.ok.inj h), fun h => congrArg _ (Option.some.inj h)⟩

/-- A new inode keeps its name when it is entered and gets its times. -/
theorem slotNames_entered {v filled w : Volume} {directory : InodeId} {name : Text}
    (later : List Text) {created modified : Option Text}
    (hFilled : slotNames filled = slotNames v ++ some name :: later.map some)
    (hw : restoreTimes (filled.attach directory v.slots.size name) v.slots.size created modified =
      .ok w) : slotNames w = slotNames v ++ some name :: later.map some := by
  have hPlace : (slotNames filled)[v.slots.size]? = some (some name) := by
    have hSize : v.slots.size = (slotNames v).length := by simp [slotNames]
    rw [hFilled, hSize, List.getElem?_append_right (Nat.le_refl _), Nat.sub_self]
    rfl
  rw [slotNames_restoreTimes hw, slotNames_attach hPlace, hFilled]

mutual

/-- Reading an entry names the next inodes as it says. -/
theorem slotNames_restore {now : Instant} {v w : Volume} {directory : InodeId} :
    (entry : Snapshot) → restore now v directory entry = .ok w →
      slotNames w = slotNames v ++ (namesIn entry).map some
  | ⟨kind, name, created, modified, content, children⟩, hw => by
    simp only [restore, check_eq_ok, bind_eq_ok, required_eq_ok] at hw
    obtain ⟨name, rfl, _, kind, rfl, hRest⟩ := hw
    split at hRest
    · rename_i hKind
      obtain rfl : kind = fileKind := by simpa using hKind
      have hMade := slotNames_insert v ⟨name, some directory, now, now, .file (content.getD [])⟩
      simpa [namesIn] using slotNames_entered [] hMade hRest
    · rename_i hKind
      have hKind : kind ≠ fileKind := by simpa using hKind
      simp only [bind_eq_ok] at hRest
      obtain ⟨filled, hAll, hTimes⟩ := hRest
      have hFilled := slotNames_restoreAll children hAll
      rw [slotNames_insert, List.append_assoc] at hFilled
      simpa [namesIn, hKind] using slotNames_entered _ hFilled hTimes

/-- Restored children have their names entered behind those that are there, in the order in which
they were written. -/
theorem slotNames_restoreAll {now : Instant} {v w : Volume} {directory : InodeId} :
    (entries : List Snapshot) → restoreAll now v directory entries = .ok w →
      slotNames w = slotNames v ++ (namesAmong entries).map some
  | [], hw => by
    rw [restoreAll] at hw
    cases hw
    simp [namesAmong]
  | entry :: entries, hw => by
    rw [restoreAll, bind_eq_ok] at hw
    obtain ⟨middle, hFirst, hRest⟩ := hw
    rw [slotNames_restoreAll entries hRest, slotNames_restore entry hFirst, namesAmong,
      List.map_append, List.append_assoc]

end

/-- The inodes of a volume that is read are named as the entries of its snapshot. -/
theorem slotNames_toVolume {now : Instant} {written : Snapshot} {v : Volume}
    (hv : written.toVolume now = .ok v) :
    slotNames v = some [] :: (namesAmong written.children).map some := by
  simp only [toVolume, check_eq_ok, bind_eq_ok] at hv
  obtain ⟨_, filled, hAll, hTimes⟩ := hv
  rw [slotNames_restoreTimes hTimes, slotNames_restoreAll _ hAll]
  rfl

section Restored

variable {now : Instant} {written : Snapshot} {v : Volume} (hv : written.toVolume now = .ok v)
include hv

/-- The names below the root are those that the snapshot holds, whatever they are. -/
theorem mem_namesAmong_iff {name : Text} : name ∈ namesAmong written.children ↔
    ∃ id node, v.get? id = some node ∧ id ≠ root ∧ node.name = name := by
  have hNames := slotNames_toVolume hv
  constructor
  · intro hMem
    obtain ⟨place, hPlace⟩ := List.mem_iff_getElem?.mp hMem
    have hSlot := getElem?_slotNames v (place + 1)
    rw [hNames, List.getElem?_cons_succ, List.getElem?_map, hPlace] at hSlot
    obtain ⟨slot, hFound, hName⟩ := Option.map_eq_some_iff.mp hSlot.symm
    obtain ⟨node, rfl, hNode⟩ := Option.map_eq_some_iff.mp hName
    exact ⟨place + 1, node, by rw [get?, hFound]; rfl, Nat.succ_ne_zero place, hNode⟩
  · rintro ⟨id, node, hNode, hRoot, rfl⟩
    obtain ⟨place, rfl⟩ : ∃ place, id = place + 1 := Nat.exists_eq_succ_of_ne_zero hRoot
    have hSlot := getElem?_slotNames v (place + 1)
    have hFound : v.slots[place + 1]? = some (some node) := Option.join_eq_some_iff.mp hNode
    rw [hNames, List.getElem?_cons_succ, hFound] at hSlot
    have hMem := List.mem_of_getElem? hSlot
    simpa using hMem

/-- A restored volume is tidy if every name below the root of what was written is one of a child. -/
theorem tidy_of_names (hValid : ∀ name ∈ namesAmong written.children, Path.IsChildName name) :
    Tidy (fun _ => True) v := by
  have hNames := slotNames_toVolume hv
  refine ⟨holds_of_isDirectory (sound_toVolume hv).forest.rootDirectory |>.lt, fun id node hNode => ?_⟩
  refine ⟨trivial, trivial, ?_, ?_⟩
  · rintro rfl
    have hSlot := getElem?_slotNames v root
    have hFound : v.slots[root]? = some (some node) := Option.join_eq_some_iff.mp hNode
    rw [hNames, hFound] at hSlot
    exact (Option.some.inj (Option.some.inj hSlot)).symm
  · intro hRoot
    exact hValid _ ((mem_namesAmong_iff hv).mpr ⟨id, node, hNode, hRoot, rfl⟩)

end Restored

section Taken

variable {clock : Instant → Prop} {v : Volume} (hForest : Forest [] v) (hTidy : Tidy clock v)
include hForest hTidy

omit hForest hTidy in
theorem nameOf_of_ofWithin {bound : Nat} {x : InodeId} {name : Text}
    (h : (ofWithin v bound x).name = some name) : v.nameOf x = name := by
  cases bound with
  | zero => cases h
  | succ bound =>
      rw [ofWithin] at h
      split at h
      · cases h
      · rename_i hNode
        rw [nameOf, hNode]
        exact Option.some.inj h

omit hForest hTidy in
theorem exists_listed_of_mem_children {bound : Nat} {x : InodeId} {entry : Snapshot}
    (h : entry ∈ (ofWithin v (bound + 1) x).children) :
    ∃ name child, (name, child) ∈ v.entries x ∧ entry = ofWithin v bound child := by
  rw [ofWithin] at h
  split at h
  · cases h
  · rename_i hNode
    obtain ⟨⟨name, child⟩, hListed, hSame⟩ := List.mem_map.mp h
    exact ⟨name, child, by rw [entries, hNode]; exact hListed, hSame.symm⟩

/-- A snapshot holds names of the volume that it was taken of. -/
theorem isChildName_ofWithin {bound : Nat} {x : InodeId} {name : Text}
    (hName : name ∈ namesAmong (ofWithin v bound x).children) : Path.IsChildName name := by
  induction bound generalizing x with
  | zero => cases hName
  | succ bound ih =>
      obtain ⟨entry, hEntry, hIn⟩ := mem_namesAmong.mp hName
      obtain ⟨listed, child, hListed, rfl⟩ := exists_listed_of_mem_children hEntry
      rcases name_or_mem_of_mem_namesIn hIn with hOwn | hBelow
      · obtain ⟨_, _, hChild, _⟩ := hForest.entry x listed child hListed
        rw [← nameOf_of_ofWithin hOwn, hChild]
        exact hTidy.childNamed hForest _ _ _ hListed
      · exact ih hBelow

/-- Whatever the clock gives, what is read of such a snapshot is well named. -/
theorem tidy_taken {now : Instant} {id : InodeId} {w : Volume}
    (hw : (ofInode v id).toVolume now = .ok w) : Tidy (fun _ => True) w :=
  tidy_of_names hw fun _ hName => isChildName_ofWithin hForest hTidy hName

end Taken

end Snapshot

namespace Volume

open Snapshot

/-- One operation keeps a volume well named, if no snapshot of another volume is read. -/
theorem Tidy.perform_named {v : Volume} (h : Tidy (fun _ => True) v) (hSound : Sound v)
    {now : Instant} {operation : Operation} (hOther : ∀ written, operation ≠ .restore written) :
    Tidy (fun _ => True) (v.perform now operation).2 :=
  h.perform hSound trivial (fun written _ hRestore => absurd hRestore (hOther written))
    (fun _ hw => tidy_taken hSound.forest h hw)

/-- Only restoring can bring in names that were not parsed from a path. -/
theorem Tidy.after_named {v : Volume} (h : Tidy (fun _ => True) v) (hSound : Sound v)
    {history : List (Instant × Operation)}
    (hSteps : ∀ step ∈ history, ∀ written, step.2 ≠ .restore written) :
    Tidy (fun _ => True) (v.after history) := by
  induction history generalizing v with
  | nil => exact h
  | cons step history ih =>
      obtain ⟨hStep, hLater⟩ := List.forall_mem_cons.mp hSteps
      exact ih (h.perform_named hSound hStep) (hSound.perform step.1 step.2) hLater

/-- A volume that operations lead to, whatever the clock gives. What is restored is a snapshot
that was taken of such a volume. -/
inductive Attained : Volume → Prop where
  | fresh (start : Instant) : Attained (fresh start)
  | perform {v : Volume} {operation : Operation} (prior : Attained v) (now : Instant)
      (other : ∀ written, operation ≠ .restore written) : Attained (v.perform now operation).2
  | restore {v u : Volume} (prior : Attained v) (taken : Attained u) (now : Instant) (id : InodeId) :
      Attained (v.perform now (.restore (ofInode u id))).2

/-- A history without restoring attains what is reached by it. -/
theorem Attained.after {v : Volume} (h : Attained v) {history : List (Instant × Operation)}
    (hSteps : ∀ step ∈ history, ∀ written, step.2 ≠ .restore written) :
    Attained (v.after history) := by
  induction history generalizing v with
  | nil => exact h
  | cons step history ih =>
      obtain ⟨hStep, hLater⟩ := List.forall_mem_cons.mp hSteps
      exact ih (h.perform step.1 hStep) hLater

/-- Whether an operation restores a snapshot. -/
def Operation.restores : Operation → Bool
  | .restore _ => true
  | _ => false

theorem Attained.after_of_all {v : Volume} (h : Attained v) {history : List (Instant × Operation)}
    (hOthers : history.all (!·.2.restores) = true) : Attained (v.after history) := by
  refine h.after fun step hStep written hSame => ?_
  have hOther := List.all_eq_true.mp hOthers step hStep
  rw [hSame] at hOther
  cases hOther

theorem Attained.sound {v : Volume} (h : Attained v) : Sound v := by
  induction h with
  | fresh start => exact sound_fresh start
  | perform _ now _ ih => exact ih.perform now _
  | restore _ _ now _ ih _ => exact ih.perform now _

/-- Every inode of an attained volume but the root has a name that a path may hold. -/
theorem Attained.tidy {v : Volume} (h : Attained v) : Tidy (fun _ => True) v := by
  induction h with
  | fresh start => exact tidy_fresh trivial
  | perform prior now other ih => exact ih.perform_named prior.sound other
  | restore prior taken now id ih ihTaken =>
      refine ih.perform prior.sound trivial (fun written w hRestore hw => ?_)
        (fun _ hw => tidy_taken prior.sound.forest ih hw)
      cases hRestore
      exact tidy_taken taken.sound.forest ihTaken hw

/-- Whatever is done to a volume, its inodes are addressed. -/
theorem addressed_of_attained {v : Volume} (h : Attained v) : Addressed v :=
  h.tidy.addressed h.sound

/-- A directory is written down, read into another volume, and moved there. -/
theorem addressed_of_attained_moved :
    let now := Instant.origin
    let u := (fresh now).after [(now, .createDirectories "/a/b/c"), (now, .writeFile "/a/f" "hi" false),
      (now, .remove "/a/b/c" false)]
    let v := ((fresh now).perform now (.restore (ofInode u 1))).2.after
      [(now, .createDirectories "/d/../e"), (now, .move "/b" "/e"), (now, .changeDirectory "/e")]
    Attained v ∧ v.walk root = ([("f", 2), ("d", 3), ("e", 4), ("e/b", 1)] : List (Text × InodeId)) ∧
      Addressed v := by
  intro now u v
  have hTaken : Attained u := by
    refine (Attained.fresh now).after fun step hStep => ?_
    simp only [List.mem_cons, List.not_mem_nil, or_false] at hStep
    rcases hStep with rfl | rfl | rfl <;> exact nofun
  have hAttained : Attained v := by
    refine ((Attained.fresh now).restore hTaken now 1).after fun step hStep => ?_
    simp only [List.mem_cons, List.not_mem_nil, or_false] at hStep
    rcases hStep with rfl | rfl | rfl <;> exact nofun
  exact ⟨hAttained, by decide +kernel, addressed_of_attained hAttained⟩

end Volume

end TreeShell
