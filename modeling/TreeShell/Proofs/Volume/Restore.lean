import TreeShell.Proofs.Volume.Tidy

/-! Reading back what was written down. A snapshot of a tidy volume is proper: names differ
among neighbours, and times can be read. A proper snapshot is restored without a fault, and a
snapshot of what was restored is the one that was read. -/
namespace TreeShell.Snapshot

open Volume

/-- An entry that can be read, with less than `height` levels below it. -/
inductive Proper : (height : Nat) → Snapshot → Prop where
  | file {height : Nat} {name content : Text} {created modified : Instant}
      (hName : Path.IsChildName name) (hCreated : created.Readable) (hModified : modified.Readable) :
      Proper (height + 1)
        ⟨some fileKind, some name, some created.render, some modified.render, some content, []⟩
  | directory {height : Nat} {name : Text} {created modified : Instant} {children : List Snapshot}
      (hName : Path.IsChildName name) (hCreated : created.Readable) (hModified : modified.Readable)
      (hChildren : ∀ child ∈ children, Proper height child)
      (hNames : (children.map Snapshot.name).Nodup) :
      Proper (height + 1)
        ⟨some directoryKind, some name, some created.render, some modified.render, none, children⟩

/-- The numbers from `low` on below `high` belong to the same inodes. -/
def AgreeOn (low high : Nat) (v w : Volume) : Prop :=
  ∀ x, low ≤ x → x < high → w.get? x = v.get? x

/-- What entering snapshots into a directory does: it gets new children, and whatever keeps
the inodes that are new shows the same snapshots at the numbers of these children. -/
structure Restored (v w : Volume) (directory : InodeId) (height : Nat) (entries : List Snapshot)
    (added : List (Text × InodeId)) : Prop where
  size : v.slots.size ≤ w.slots.size
  cwd : w.cwd = v.cwd
  others : ∀ x, x < v.slots.size → x ≠ directory → w.get? x = v.get? x
  directory : w.get? directory = (v.get? directory).map fun node =>
    { node with body := .directory (node.entries ++ added) }
  names : added.map (fun entry => some entry.1) = entries.map Snapshot.name
  tidy : Tidy Instant.Readable w
  shown : ∀ u, AgreeOn v.slots.size w.slots.size w u → ∀ bound ≥ height,
    added.map (fun entry => ofWithin u bound entry.2) = entries

section Restored

variable {v w : Volume} {directory : InodeId} {height : Nat} {entries : List Snapshot}
  {added : List (Text × InodeId)}

theorem restored_nil (height : Nat) (hTidy : Tidy Instant.Readable v)
    (hDirectory : v.isDirectory directory = true) : Restored v v directory height [] [] := by
  refine ⟨Nat.le_refl _, rfl, fun _ _ _ => rfl, ?_, rfl, hTidy, fun _ _ _ _ => rfl⟩
  obtain ⟨node, hNode⟩ := holds_iff.mp (holds_of_isDirectory hDirectory)
  obtain ⟨name, parent, created, modified, body⟩ := node
  rw [hNode]
  cases body with
  | file content => simp [Volume.isDirectory, hNode, Inode.isDirectory] at hDirectory
  | directory listed => simp [Inode.entries]

theorem Restored.isDirectory (h : Restored v w directory height entries added)
    (hDirectory : v.isDirectory directory = true) : w.isDirectory directory = true := by
  obtain ⟨node, hNode⟩ := holds_iff.mp (holds_of_isDirectory hDirectory)
  rw [Volume.isDirectory, h.directory, hNode]
  rfl

theorem Restored.entries_eq (h : Restored v w directory height entries added)
    (hDirectory : v.isDirectory directory = true) :
    w.entries directory = v.entries directory ++ added := by
  obtain ⟨node, hNode⟩ := holds_iff.mp (holds_of_isDirectory hDirectory)
  rw [Volume.entries, Volume.entries, h.directory, hNode]
  rfl

/-- What is entered first and what is entered behind it make up what is entered together. -/
theorem Restored.trans {u : Volume} {later : List Snapshot} {more : List (Text × InodeId)}
    (first : Restored u v directory height entries added)
    (second : Restored v w directory height later more)
    (hBelow : directory < u.slots.size) :
    Restored u w directory height (entries ++ later) (added ++ more) where
  size := Nat.le_trans first.size second.size
  cwd := second.cwd.trans first.cwd
  others x hx hNe :=
    (second.others x (Nat.lt_of_lt_of_le hx first.size) hNe).trans (first.others x hx hNe)
  directory := by
    rw [second.directory, first.directory, Option.map_map]
    refine congrArg (fun change => Option.map change _) (funext fun node => ?_)
    simp [Inode.entries]
  names := by rw [List.map_append, List.map_append, first.names, second.names]
  tidy := second.tidy
  shown w' hAgree bound hBound := by
    have hFirst : AgreeOn u.slots.size v.slots.size v w' := by
      intro x hLow hHigh
      have hNe : x ≠ directory := Nat.ne_of_gt (Nat.lt_of_lt_of_le hBelow hLow)
      rw [hAgree x hLow (Nat.lt_of_lt_of_le hHigh second.size), second.others x hHigh hNe]
    have hSecond : AgreeOn v.slots.size w.slots.size w w' :=
      fun x hLow hHigh => hAgree x (Nat.le_trans first.size hLow) hHigh
    rw [List.map_append, first.shown w' hFirst bound hBound, second.shown w' hSecond bound hBound]

end Restored

/-- A time that can be written is read back. -/
theorem time?_render {t : Instant} (h : t.Readable) (otherwise : Instant) :
    time? (some t.render) otherwise = .ok t := by
  obtain ⟨c, rest, hRender⟩ := List.exists_cons_of_ne_nil h.render_ne_nil
  rw [Instant.Readable, hRender] at h
  rw [hRender, time?, h]
  rintro ⟨⟩

/-- Times that can be written are restored to what they were. -/
theorem restoreTimes_render {v : Volume} {id : InodeId} {node : Inode} {created modified : Instant}
    (hNode : v.get? id = some node) (hCreated : created.Readable) (hModified : modified.Readable) :
    restoreTimes v id (some created.render) (some modified.render) =
      .ok (v.update id fun node => { node with created := created, modified := modified }) := by
  rw [restoreTimes, hNode]
  simp only [time?_render hCreated, time?_render hModified]
  rfl

/-- A new inode, filled if it is a directory, is entered into a directory and gets its times. -/
theorem exists_entered {v filled : Volume} {directory : InodeId} {height : Nat} {node : Inode}
    {created modified : Instant} {children : List Snapshot}
    (hBelow : directory < v.slots.size) (hSize : v.slots.size < filled.slots.size)
    (hCwd : filled.cwd = v.cwd) (hOld : ∀ x, x < v.slots.size → filled.get? x = v.get? x)
    (hNode : filled.get? v.slots.size = some node) (hTidy : Tidy Instant.Readable filled)
    (hCreated : created.Readable) (hModified : modified.Readable)
    (hShown : ∀ u, AgreeOn (v.slots.size + 1) filled.slots.size filled u → ∀ bound ≥ height,
      node.entries.map (fun entry => ofWithin u bound entry.2) = children) :
    ∃ w, restoreTimes (filled.attach directory v.slots.size node.name) v.slots.size
        (some created.render) (some modified.render) = .ok w ∧
      Restored v w directory (height + 1)
        [⟨some (if node.isDirectory then directoryKind else fileKind), some node.name,
          some created.render, some modified.render, node.content?, children⟩]
        [(node.name, v.slots.size)] := by
  have hRoot : v.slots.size ≠ root := Nat.ne_of_gt (Nat.lt_of_le_of_lt (Nat.zero_le _) hBelow)
  have hNe : directory ≠ v.slots.size := Nat.ne_of_lt hBelow
  have hName := (hTidy.fits _ node hNode).childName hRoot
  let entered := filled.attach directory v.slots.size node.name
  have hEntered := get?_attach filled hNe node.name
  rw [hNode, hOld directory hBelow] at hEntered
  have hTimes := restoreTimes_render ((hEntered v.slots.size).trans (if_pos rfl)) hCreated
    hModified
  refine ⟨_, hTimes, ?_⟩
  let w := entered.update v.slots.size fun node =>
    { node with created := created, modified := modified }
  have hNew : w.get? v.slots.size =
      some { node with parent := some directory, created := created, modified := modified } := by
    rw [get?_update, if_pos rfl, hEntered, if_pos rfl]
    rfl
  have hOther : ∀ x, x ≠ v.slots.size → x ≠ directory → w.get? x = filled.get? x := by
    intro x hx hd
    rw [get?_update, if_neg hx, hEntered, if_neg hx, if_neg hd]
  have hWide : w.slots.size = filled.slots.size := by
    simp [w, entered, attach, Volume.update]
  refine ⟨?_, hCwd, ?_, ?_, rfl, ?_, ?_⟩
  · exact Nat.le_of_lt (hWide ▸ hSize)
  · exact fun x hx hd => (hOther x (Nat.ne_of_lt hx) hd).trans (hOld x hx)
  · rw [get?_update, if_neg hNe, hEntered, if_neg hNe, if_pos rfl]
  · refine (hTidy.attach hRoot hName).update fun _ hFits => ?_
    exact ⟨hCreated, hModified, hFits.rootName, hFits.childName⟩
  · intro u hAgree bound hBound
    obtain ⟨bound, rfl⟩ : ∃ less, bound = less + 1 := ⟨bound - 1, by omega⟩
    have hInner : AgreeOn (v.slots.size + 1) filled.slots.size filled u := by
      intro x hLow hHigh
      have hx : x ≠ v.slots.size := Nat.ne_of_gt hLow
      have hd : x ≠ directory := Nat.ne_of_gt (Nat.lt_trans hBelow hLow)
      rw [hAgree x (Nat.le_of_lt hLow) (hWide ▸ hHigh)]
      exact hOther x hx hd
    have hSeen := (hAgree v.slots.size (Nat.le_refl _) (hWide ▸ hSize)).trans hNew
    have hChildren := hShown u hInner bound (by omega)
    rw [List.map_singleton, ofWithin, hSeen, ← hChildren]
    rfl

theorem child?_eq_none_of_name {v : Volume} {directory : InodeId} {name : Text}
    (h : some name ∉ (v.entries directory).map (fun entry => some entry.1)) :
    v.child? directory name = none := by
  rw [child?_eq_none_iff]
  intro hMem
  obtain ⟨entry, hEntry, rfl⟩ := List.mem_map.mp hMem
  exact h (List.mem_map_of_mem hEntry)

/-- A file is entered under its name with its content, and given its times. -/
theorem restore_file {v : Volume} {directory : InodeId} {name content : Text}
    {created modified : Option Text} (now : Instant) (hFree : v.child? directory name = none) :
    restore now v directory ⟨some fileKind, some name, created, modified, some content, []⟩ =
      restoreTimes ((v.insert ⟨name, some directory, now, now, .file content⟩).2.attach directory
        v.slots.size name) v.slots.size created modified := by
  rw [restore]
  simp only [required, ok_bind, hFree, Option.isSome_none, Bool.false_eq_true, if_false,
    beq_self_eq_true, if_true, Option.getD_some]
  rfl

/-- A directory is entered under its name, filled with its children, and given its times last, since
filling it sets them. -/
theorem restore_directory {v : Volume} {directory : InodeId} {name : Text}
    {created modified : Option Text} {children : List Snapshot} (now : Instant)
    (hFree : v.child? directory name = none) :
    restore now v directory ⟨some directoryKind, some name, created, modified, none, children⟩ =
      (do
        let filled ← restoreAll now (v.insert ⟨name, some directory, now, now, .directory []⟩).2
          v.slots.size children
        restoreTimes (filled.attach directory v.slots.size name) v.slots.size created modified) := by
  have hKind : (directoryKind == fileKind) = false := by decide
  rw [restore]
  simp only [required, ok_bind, hFree, Option.isSome_none, Bool.false_eq_true, if_false, hKind]
  rfl

/-- Entries of this height are entered without a fault. -/
def CanRestore (now : Instant) (height : Nat) : Prop :=
  ∀ ⦃v : Volume⦄ ⦃directory : InodeId⦄ ⦃entry : Snapshot⦄, Tidy Instant.Readable v →
    v.isDirectory directory = true → Proper height entry →
    entry.name ∉ (v.entries directory).map (fun entry => some entry.1) →
      ∃ w added, restore now v directory entry = .ok w ∧ Restored v w directory height [entry] added

/-- Neighbours are entered one after the other. -/
theorem CanRestore.all {now : Instant} {height : Nat} (hOne : CanRestore now height)
    (entries : List Snapshot) {v : Volume} {directory : InodeId} (hTidy : Tidy Instant.Readable v)
    (hDirectory : v.isDirectory directory = true) (hProper : ∀ entry ∈ entries, Proper height entry)
    (hNames : ((v.entries directory).map (fun entry => some entry.1) ++
      entries.map Snapshot.name).Nodup) :
    ∃ w added, restoreAll now v directory entries = .ok w ∧
      Restored v w directory height entries added := by
  induction entries generalizing v with
  | nil => exact ⟨v, [], rfl, restored_nil height hTidy hDirectory⟩
  | cons entry entries ih =>
      have hFree : entry.name ∉ (v.entries directory).map (fun entry => some entry.1) := by
        intro hMem
        exact List.disjoint_of_nodup_append hNames hMem (by simp)
      obtain ⟨u, first, hFirst, hRestored⟩ :=
        hOne hTidy hDirectory (hProper entry (List.mem_cons_self ..)) hFree
      have hRest : ((u.entries directory).map (fun entry => some entry.1) ++
          entries.map Snapshot.name).Nodup := by
        rw [hRestored.entries_eq hDirectory, List.map_append, hRestored.names]
        simpa using hNames
      obtain ⟨w, added, hLater, hLast⟩ := ih hRestored.tidy (hRestored.isDirectory hDirectory)
        (fun other hOther => hProper other (List.mem_cons_of_mem _ hOther)) hRest
      refine ⟨w, first ++ added, ?_, hRestored.trans hLast (holds_of_isDirectory hDirectory).lt⟩
      rw [restoreAll, hFirst]
      exact hLater

/-- A proper entry is entered without a fault. The induction is on its height. -/
theorem canRestore {now : Instant} (hNow : now.Readable) (height : Nat) : CanRestore now height := by
  induction height with
  | zero =>
      intro v directory entry _ _ hProper
      cases hProper
  | succ height ih =>
      intro v directory entry hTidy hDirectory hProper hFree
      have hBelow := (holds_of_isDirectory hDirectory).lt
      have hFits : ∀ {name : Text} {body : Body}, Path.IsChildName name →
          Fits Instant.Readable v.slots.size ⟨name, some directory, now, now, body⟩ :=
        fun hName => ⟨hNow, hNow, fun hRoot => absurd hRoot hTidy.size_ne_root, fun _ => hName⟩
      cases hProper with
      | @file _ name content created modified hName hCreated hModified =>
          let node : Inode := ⟨name, some directory, now, now, .file content⟩
          have hCwd : (v.insert node).2.cwd = v.cwd := rfl
          have hWide : v.slots.size < (v.insert node).2.slots.size := by
            rw [size_insert]
            exact Nat.lt_succ_self _
          have hShown : ∀ u, AgreeOn (v.slots.size + 1) (v.insert node).2.slots.size
              (v.insert node).2 u → ∀ bound ≥ height,
                node.entries.map (fun entry => ofWithin u bound entry.2) = [] :=
            fun _ _ _ _ => rfl
          rw [restore_file now (child?_eq_none_of_name hFree)]
          obtain ⟨w, hw, hRestored⟩ := exists_entered hBelow hWide hCwd
            (fun _ hx => get?_insert_of_lt v node hx) (get?_insert_self v node)
            (hTidy.insert (hFits hName)) hCreated hModified hShown
          exact ⟨w, _, hw, hRestored⟩
      | @directory _ name created modified children hName hCreated hModified hChildren hNames =>
          let node : Inode := ⟨name, some directory, now, now, .directory []⟩
          have hMade : (v.insert node).2.isDirectory v.slots.size = true := isDirectory_insert v node
          have hBare : (v.insert node).2.entries v.slots.size = [] := by
            rw [Volume.entries, get?_insert_self]
            rfl
          obtain ⟨filled, added, hFilled, hInner⟩ := ih.all children (hTidy.insert (hFits hName))
            hMade hChildren (by rw [hBare]; simpa using hNames)
          rw [restore_directory now (child?_eq_none_of_name hFree), hFilled, ok_bind]
          have hKept : ∀ x, x < v.slots.size → filled.get? x = v.get? x := by
            intro x hx
            rw [hInner.others x (by rw [size_insert]; exact Nat.lt_succ_of_lt hx) (Nat.ne_of_lt hx),
              get?_insert_of_lt v node hx]
          have hNode : filled.get? v.slots.size =
              some ⟨name, some directory, now, now, .directory added⟩ := by
            rw [hInner.directory, get?_insert_self]
            rfl
          have hWide : v.slots.size < filled.slots.size := by
            have hSize := hInner.size
            rw [size_insert] at hSize
            exact hSize
          have hShown := hInner.shown
          rw [size_insert] at hShown
          obtain ⟨w, hw, hRestored⟩ := exists_entered hBelow hWide hInner.cwd hKept hNode
            hInner.tidy hCreated hModified hShown
          exact ⟨w, _, hw, hRestored⟩

/-- The snapshot of a directory is read without a fault, and what is read shows it, but for
the name of the directory, since the root has none. -/
theorem exists_toVolume {now created modified : Instant} {height : Nat} {name content : Option Text}
    {children : List Snapshot} (hNow : now.Readable) (hCreated : created.Readable)
    (hModified : modified.Readable) (hChildren : ∀ child ∈ children, Proper height child)
    (hNames : (children.map Snapshot.name).Nodup) :
    ∃ w, toVolume ⟨some directoryKind, name, some created.render, some modified.render, content,
        children⟩ now = .ok w ∧ Tidy Instant.Readable w ∧ w.cwd = root ∧
      ∀ bound > height, ofWithin w bound root =
        ⟨some directoryKind, some [], some created.render, some modified.render, none, children⟩ := by
  have hRoot : (fresh now).get? root = some ⟨[], none, now, now, .directory []⟩ := rfl
  obtain ⟨filled, added, hFilled, hRestored⟩ := (canRestore hNow height).all children
    (tidy_fresh hNow) (forest_fresh now).rootDirectory hChildren
    (by simpa [Volume.entries, hRoot, Inode.entries] using hNames)
  have hNode : filled.get? root = some ⟨[], none, now, now, .directory added⟩ := by
    rw [hRestored.directory, hRoot]
    rfl
  let w := filled.update root fun node => { node with created := created, modified := modified }
  refine ⟨w, ?_, ?_, ?_, ?_⟩
  · rw [toVolume]
    simp only [bne_self_eq_false, Bool.false_eq_true, if_false, hFilled, ok_bind]
    exact restoreTimes_render hNode hCreated hModified
  · exact hRestored.tidy.update fun _ hFits =>
      ⟨hCreated, hModified, hFits.rootName, hFits.childName⟩
  · exact hRestored.cwd
  · intro bound hBound
    obtain ⟨bound, rfl⟩ : ∃ less, bound = less + 1 := ⟨bound - 1, by omega⟩
    have hAgree : AgreeOn (fresh now).slots.size filled.slots.size filled w := by
      intro x hLow _
      have hx : x ≠ root := Nat.ne_of_gt hLow
      rw [get?_update, if_neg hx]
    have hShown := hRestored.shown w hAgree bound (by omega)
    rw [ofWithin, get?_update, if_pos rfl, hNode, ← hShown]
    rfl

section Written

variable {v : Volume} (hForest : Forest [] v) (hTidy : Tidy Instant.Readable v)
include hForest

omit hForest in
theorem name_ofWithin {bound : Nat} {x : InodeId} (hHeld : v.Holds x) (hShallow : Shallow v bound x) :
    (ofWithin v bound x).name = some (v.nameOf x) := by
  obtain ⟨bound, rfl⟩ := hShallow.pos
  obtain ⟨node, hNode⟩ := holds_iff.mp hHeld
  rw [ofWithin, nameOf, hNode]

/-- The children of a directory are written down under different names. -/
theorem nodup_children {bound : Nat} {x : InodeId} (hShallow : Shallow v (bound + 1) x) :
    (((v.entries x).map fun entry => ofWithin v bound entry.2).map Snapshot.name).Nodup := by
  have hSame : ((v.entries x).map fun entry => ofWithin v bound entry.2).map Snapshot.name =
      ((v.entries x).map Prod.fst).map some := by
    rw [List.map_map, List.map_map]
    refine List.map_congr_left fun entry hEntry => ?_
    obtain ⟨_, hHeld, hName, _⟩ := hForest.entry x entry.1 entry.2 hEntry
    exact (name_ofWithin hHeld (hShallow.child hEntry)).trans (congrArg some hName)
  rw [hSame]
  exact (hForest.namesNodup x).map fun _ _ hSome => Option.some.inj hSome

/-- What is written of the children is proper if it is for each of them. -/
theorem proper_children {bound : Nat} {x : InodeId} (hShallow : Shallow v (bound + 1) x)
    (hOne : ∀ {y : InodeId}, v.Holds y → y ≠ root → Shallow v bound y →
      Proper bound (ofWithin v bound y)) :
    ∀ child ∈ (v.entries x).map fun entry => ofWithin v bound entry.2, Proper bound child := by
  intro child hChild
  obtain ⟨entry, hEntry, rfl⟩ := List.mem_map.mp hChild
  obtain ⟨hTop, hHeld, _⟩ := hForest.entry x entry.1 entry.2 hEntry
  exact hOne hHeld (by simpa using hTop) (hShallow.child hEntry)

include hTidy

/-- What is written down of a tidy volume can be read. -/
theorem proper_ofWithin {bound : Nat} {x : InodeId} (hHeld : v.Holds x) (hRoot : x ≠ root)
    (hShallow : Shallow v bound x) : Proper bound (ofWithin v bound x) := by
  induction bound generalizing x with
  | zero => exact absurd (hShallow 0 x .here) (Nat.lt_irrefl 0)
  | succ bound ih =>
      obtain ⟨node, hNode⟩ := holds_iff.mp hHeld
      have hFits := hTidy.fits x node hNode
      have hNames := nodup_children hForest hShallow
      have hChildren := proper_children hForest hShallow ih
      rw [ofWithin, hNode]
      rw [entries, hNode] at hNames hChildren
      obtain ⟨name, parent, created, modified, body⟩ := node
      cases body with
      | file content => exact .file (hFits.childName hRoot) hFits.created hFits.modified
      | directory listed =>
          exact .directory (hFits.childName hRoot) hFits.created hFits.modified hChildren hNames

/-- The snapshot of a directory is read without a fault, and shown by what is read. -/
theorem exists_toVolume_ofInode {now : Instant} (hNow : now.Readable) {x : InodeId}
    (hDirectory : v.isDirectory x = true) :
    ∃ w, (ofInode v x).toVolume now = .ok w ∧ Tidy Instant.Readable w ∧ w.cwd = root ∧
      ∀ bound ≥ v.slots.size, ofWithin w bound root = { ofInode v x with name := some [] } := by
  have hHeld := holds_of_isDirectory hDirectory
  have hShallow := hForest.shallow hHeld
  obtain ⟨bound, hBound⟩ := hShallow.pos
  obtain ⟨node, hNode⟩ := holds_iff.mp hHeld
  have hFits := hTidy.fits x node hNode
  rw [hBound] at hShallow
  have hNames := nodup_children hForest hShallow
  have hChildren := proper_children hForest hShallow (proper_ofWithin hForest hTidy)
  rw [ofInode, hBound, ofWithin, hNode]
  rw [entries, hNode] at hNames hChildren
  rw [isDirectory, hNode] at hDirectory
  obtain ⟨name, parent, created, modified, body⟩ := node
  cases body with
  | file content => cases hDirectory
  | directory listed =>
      exact exists_toVolume hNow hFits.created hFits.modified hChildren hNames

omit hForest hTidy in
/-- Only the snapshot of a directory is read. -/
theorem isDirectory_of_toVolume {now : Instant} {x : InodeId} {w : Volume}
    (hw : (ofInode v x).toVolume now = .ok w) : v.isDirectory x = true := by
  rw [toVolume, check_eq_ok] at hw
  have hKind : (ofInode v x).kind = some directoryKind := by simpa using hw.1
  rw [ofInode] at hKind
  cases hSize : v.slots.size with
  | zero =>
      rw [hSize] at hKind
      cases hKind
  | succ bound =>
      rw [hSize, ofWithin] at hKind
      rw [isDirectory]
      cases hNode : v.get? x with
      | none =>
          rw [hNode] at hKind
          cases hKind
      | some node =>
          rw [hNode] at hKind
          change some (if node.isDirectory then directoryKind else fileKind) = _ at hKind
          cases hSame : node.isDirectory with
          | true => exact hSame
          | false =>
              rw [hSame] at hKind
              exact absurd hKind (by decide)

/-- A tree that was written of an inode is read back to a tidy volume. -/
theorem tidy_toVolume {now : Instant} (hNow : now.Readable) {x : InodeId} {w : Volume}
    (hw : (ofInode v x).toVolume now = .ok w) : Tidy Instant.Readable w := by
  obtain ⟨other, hOther, hKept, _⟩ :=
    exists_toVolume_ofInode hForest hTidy hNow (isDirectory_of_toVolume hw)
  rw [Except.ok.inj (hw.symm.trans hOther)]
  exact hKept

end Written

end TreeShell.Snapshot
