import TreeShell.Volume.Relocate

/-! What each change of the table does to the inodes in it: which numbers are in use, and
the kind, name, parent and children of every number. Later modules read a volume through
these five only. -/
namespace TreeShell.Volume

def Holds (v : Volume) (id : InodeId) : Prop := (v.get? id).isSome = true

theorem get?_update (v : Volume) (id : InodeId) (change : Inode → Inode) (x : InodeId) :
    (v.update id change).get? x = if x = id then (v.get? id).map change else v.get? x := by
  rw [get?, update, Array.getElem?_modify]
  by_cases h : id = x
  · subst h
    cases hSlot : v.slots[id]? <;> simp [get?, hSlot]
  · simp [h, Ne.symm h, get?]

theorem get?_insert (v : Volume) (node : Inode) (x : InodeId) :
    (v.insert node).2.get? x = if x = v.slots.size then some node else v.get? x := by
  rw [get?, insert, Array.getElem?_push]
  split <;> simp [get?]

theorem get?_insert_self (v : Volume) (node : Inode) :
    (v.insert node).2.get? v.slots.size = some node := by
  rw [get?_insert, if_pos rfl]

theorem get?_insert_of_lt (v : Volume) (node : Inode) {x : InodeId} (h : x < v.slots.size) :
    (v.insert node).2.get? x = v.get? x := by
  rw [get?_insert, if_neg (Nat.ne_of_lt h)]

theorem size_insert (v : Volume) (node : Inode) :
    (v.insert node).2.slots.size = v.slots.size + 1 := by
  rw [insert, Array.size_push]

/-- Attaching renames the inode, enters it in its directory, and leaves all other inodes as they
are. -/
theorem get?_attach (v : Volume) {directory id : InodeId} (hNe : directory ≠ id) (name : Text)
    (x : InodeId) : (v.attach directory id name).get? x =
      if x = id then (v.get? id).map fun node =>
        { node with name := name, parent := some directory }
      else if x = directory then (v.get? directory).map fun node =>
        { node with body := .directory (node.entries ++ [(name, id)]) }
      else v.get? x := by
  simp only [attach, get?_update]
  by_cases hx : x = id
  · rw [if_pos hx, if_pos hx, if_neg (Ne.symm hNe)]
  · rw [if_neg hx, if_neg hx]

theorem get?_discard (v : Volume) (ids : List InodeId) (x : InodeId) :
    (v.discard ids).get? x = if x ∈ ids then none else v.get? x := by
  have hSlots : ∀ slots : Array (Option Inode),
      ((ids.foldl (fun slots id => slots.setIfInBounds id none) slots)[x]?).join =
        if x ∈ ids then none else (slots[x]?).join := by
    induction ids with
    | nil => simp
    | cons id ids ih =>
        intro slots
        rw [List.foldl_cons, ih, Array.getElem?_setIfInBounds]
        by_cases h : id = x
        · subst h
          by_cases hBound : id < slots.size <;> simp [hBound]
        · simp [h, Ne.symm h]
  exact hSlots v.slots

theorem size_discard (v : Volume) (ids : List InodeId) :
    (v.discard ids).slots.size = v.slots.size := by
  rw [discard]
  generalize v.slots = slots
  induction ids generalizing slots with
  | nil => rfl
  | cons id ids ih => exact (ih _).trans Array.size_setIfInBounds

theorem get?_size_le {v : Volume} {id : InodeId} (h : v.slots.size ≤ id) : v.get? id = none := by
  simp [get?, h]

theorem Holds.lt {v : Volume} {id : InodeId} (h : v.Holds id) : id < v.slots.size := by
  refine Nat.lt_of_not_le fun hBound => ?_
  rw [Holds, get?_size_le hBound] at h
  cases h

theorem holds_iff {v : Volume} {id : InodeId} : v.Holds id ↔ ∃ node, v.get? id = some node :=
  Option.isSome_iff_exists

theorem holds_of_isDirectory {v : Volume} {id : InodeId} (h : v.isDirectory id = true) :
    v.Holds id := by
  rw [isDirectory] at h
  cases hNode : v.get? id with
  | none => simp [hNode] at h
  | some node => simp [Holds, hNode]

/-- Only directories list anything. -/
theorem isDirectory_of_entry {v : Volume} {id : InodeId} {entry : Text × InodeId}
    (h : entry ∈ v.entries id) : v.isDirectory id = true := by
  rw [entries] at h
  cases hNode : v.get? id with
  | none => simp [hNode] at h
  | some node =>
      rw [hNode] at h
      cases hBody : node.body with
      | file content => simp [Inode.entries, hBody] at h
      | directory entries => simp [isDirectory, hNode, Inode.isDirectory, hBody]

theorem child?_eq_none_iff {v : Volume} {directory : InodeId} {name : Text} :
    v.child? directory name = none ↔ name ∉ (v.entries directory).map Prod.fst := by
  rw [child?, List.lookup_eq_none_iff]
  constructor
  · intro h hMem
    obtain ⟨entry, hEntry, rfl⟩ := List.mem_map.mp hMem
    simpa using h entry hEntry
  · intro h entry hEntry
    have hNe : name ≠ entry.1 := by
      rintro rfl
      exact h (List.mem_map_of_mem hEntry)
    simpa using hNe

theorem mem_entries_of_child? {v : Volume} {directory id : InodeId} {name : Text}
    (h : v.child? directory name = some id) : (name, id) ∈ v.entries directory := by
  obtain ⟨before, after, hEntries, _⟩ := List.lookup_eq_some_iff.mp h
  rw [hEntries]
  simp

/-- Two volumes whose inodes differ in contents of files and in times only. -/
structure SameShape (v w : Volume) : Prop where
  holds : ∀ id, w.Holds id ↔ v.Holds id
  isDirectory : ∀ id, w.isDirectory id = v.isDirectory id
  nameOf : ∀ id, w.nameOf id = v.nameOf id
  parentOf? : ∀ id, w.parentOf? id = v.parentOf? id
  entries : ∀ id, w.entries id = v.entries id
  cwd : w.cwd = v.cwd
  size : w.slots.size = v.slots.size

theorem SameShape.refl (v : Volume) : SameShape v v :=
  ⟨fun _ => Iff.rfl, fun _ => rfl, fun _ => rfl, fun _ => rfl, fun _ => rfl, rfl, rfl⟩

/-- A change of one inode that leaves kind, name, parent and children alone. -/
theorem sameShape_update {v : Volume} {id : InodeId} {change : Inode → Inode}
    (hName : ∀ node, (change node).name = node.name)
    (hParent : ∀ node, (change node).parent = node.parent)
    (hBody : ∀ node, v.get? id = some node →
      (change node).isDirectory = node.isDirectory ∧ (change node).entries = node.entries) :
    SameShape v (v.update id change) := by
  have hGet := get?_update v id change
  refine ⟨?_, ?_, ?_, ?_, ?_, rfl, by simp [update]⟩ <;> intro x <;> by_cases hx : x = id
  · subst hx
    simp [Holds, hGet]
  · simp [Holds, hGet, hx]
  · subst hx
    cases hNode : v.get? x with
    | none => simp [Volume.isDirectory, hGet, hNode]
    | some node => simp [Volume.isDirectory, hGet, hNode, hBody node hNode]
  · simp [Volume.isDirectory, hGet, hx]
  · subst hx
    cases hNode : v.get? x <;> simp [Volume.nameOf, hGet, hNode, hName]
  · simp [Volume.nameOf, hGet, hx]
  · subst hx
    cases hNode : v.get? x <;> simp [Volume.parentOf?, hGet, hNode, hParent]
  · simp [Volume.parentOf?, hGet, hx]
  · subst hx
    cases hNode : v.get? x with
    | none => simp [Volume.entries, hGet, hNode]
    | some node => simp [Volume.entries, hGet, hNode, hBody node hNode]
  · simp [Volume.entries, hGet, hx]

theorem sameShape_touch (v : Volume) (now : Instant) (id : InodeId) : SameShape v (v.touch now id) :=
  sameShape_update (fun _ => rfl) (fun _ => rfl) (fun _ _ => ⟨rfl, rfl⟩)

/-- Setting a content changes no link and no kind. -/
theorem sameShape_setContent {v : Volume} (now : Instant) {id : InodeId} {old : Text}
    (h : v.content? id = some old) (content : Text) :
    SameShape v (v.setContent now id content) := by
  refine sameShape_update (fun _ => rfl) (fun _ => rfl) ?_
  intro node hNode
  cases hBody : node.body with
  | file text => simp [Inode.isDirectory, Inode.entries, hBody]
  | directory entries => simp [content?, hNode, Inode.content?, hBody] at h

/-- A directory has got other children, and an inode another name and parent. -/
structure Relinked (v w : Volume) (directory : InodeId) (listed : List (Text × InodeId))
    (id : InodeId) (name : Text) (parent : Option InodeId) : Prop where
  holds : ∀ x, w.Holds x ↔ v.Holds x
  isDirectory : ∀ x, w.isDirectory x = v.isDirectory x
  nameOf : ∀ x, w.nameOf x = if x = id then name else v.nameOf x
  parentOf? : ∀ x, w.parentOf? x = if x = id then parent else v.parentOf? x
  entries : ∀ x, w.entries x = if x = directory then listed else v.entries x
  cwd : w.cwd = v.cwd
  size : w.slots.size = v.slots.size

/-- Changing the children of a directory and the parent of another inode leaves all other links as
they are. -/
theorem relinked_update {v : Volume} {directory id : InodeId} {up node : Inode}
    (hUp : v.get? directory = some up) (hNode : v.get? id = some node) (hNe : directory ≠ id)
    (hDirectory : v.isDirectory directory = true) {outer inner : Inode → Inode}
    (hName : (outer up).name = up.name) (hParent : (outer up).parent = up.parent)
    {listed : List (Text × InodeId)} (hListed : (outer up).body = .directory listed)
    (hBody : (inner node).body = node.body) :
    Relinked v ((v.update directory outer).update id inner) directory listed id
      (inner node).name (inner node).parent := by
  let w := (v.update directory outer).update id inner
  have hCases : ∀ x, (x = id ∧ w.get? x = some (inner node)) ∨
      (x = directory ∧ w.get? x = some (outer up)) ∨
      (x ≠ id ∧ x ≠ directory ∧ w.get? x = v.get? x) := by
    intro x
    simp only [w, get?_update, hUp, if_neg (Ne.symm hNe), hNode, Option.map_some]
    by_cases hx : x = id
    · exact Or.inl ⟨hx, if_pos hx⟩
    · by_cases hd : x = directory
      · exact Or.inr (Or.inl ⟨hd, by rw [if_neg hx, if_pos hd]⟩)
      · exact Or.inr (Or.inr ⟨hx, hd, by rw [if_neg hx, if_neg hd]⟩)
  refine ⟨fun x => ?_, fun x => ?_, fun x => ?_, fun x => ?_, fun x => ?_, rfl, by simp [update]⟩
  · rcases hCases x with ⟨rfl, h⟩ | ⟨rfl, h⟩ | ⟨_, _, h⟩ <;> simp [w, Holds, h, hNode, hUp]
  · rcases hCases x with ⟨rfl, h⟩ | ⟨rfl, h⟩ | ⟨_, _, h⟩
    · simp [w, Volume.isDirectory, h, hNode, Inode.isDirectory, hBody]
    · rw [hDirectory]
      simp [w, Volume.isDirectory, h, Inode.isDirectory, hListed]
    · simp [w, Volume.isDirectory, h]
  · rcases hCases x with ⟨rfl, h⟩ | ⟨rfl, h⟩ | ⟨hx, _, h⟩
    · simp [w, Volume.nameOf, h]
    · simp [w, Volume.nameOf, h, hUp, hNe, hName]
    · simp [w, Volume.nameOf, h, hx]
  · rcases hCases x with ⟨rfl, h⟩ | ⟨rfl, h⟩ | ⟨hx, _, h⟩
    · simp [w, Volume.parentOf?, h]
    · simp [w, Volume.parentOf?, h, hUp, hNe, hParent]
    · simp [w, Volume.parentOf?, h, hx]
  · rcases hCases x with ⟨rfl, h⟩ | ⟨rfl, h⟩ | ⟨_, hd, h⟩
    · simp [w, Volume.entries, h, hNode, Ne.symm hNe, Inode.entries, hBody]
    · simp [w, Volume.entries, h, Inode.entries, hListed]
    · simp [w, Volume.entries, h, hd]

/-- Entering an inode makes it the last child. -/
theorem relinked_attach {v : Volume} {directory id : InodeId} (name : Text)
    (hDirectory : v.isDirectory directory = true) (hId : v.Holds id) (hNe : directory ≠ id) :
    Relinked v (v.attach directory id name) directory (v.entries directory ++ [(name, id)])
      id name (some directory) := by
  obtain ⟨node, hNode⟩ := holds_iff.mp hId
  obtain ⟨up, hUp⟩ := holds_iff.mp (holds_of_isDirectory hDirectory)
  refine relinked_update hUp hNode hNe hDirectory rfl rfl ?_ rfl
  simp [Volume.entries, hUp]

/-- Taking an inode out leaves the children with other names. -/
theorem relinked_unlink {v : Volume} (now : Instant) {directory id : InodeId}
    (hDirectory : v.isDirectory directory = true) (hId : v.parentOf? id = some directory)
    (hNe : directory ≠ id) :
    Relinked v (v.unlink now id) directory
      ((v.entries directory).filter (·.1 != v.nameOf id)) id (v.nameOf id) none := by
  obtain ⟨up, hUp⟩ := holds_iff.mp (holds_of_isDirectory hDirectory)
  cases hNode : v.get? id with
  | none => simp [Volume.parentOf?, hNode] at hId
  | some node =>
      obtain ⟨name, parent, created, modified, body⟩ := node
      have hParent : parent = some directory := by simpa [Volume.parentOf?, hNode] using hId
      have hName : v.nameOf id = name := by simp [Volume.nameOf, hNode]
      subst hParent
      rw [unlink, hNode, hName]
      refine relinked_update hUp hNode hNe hDirectory rfl rfl ?_ rfl
      simp [Volume.entries, hUp]

/-- What a new inode without children does. -/
structure Inserted (v w : Volume) (id : InodeId) : Prop where
  fresh : ¬ v.Holds id
  holds : ∀ x, w.Holds x ↔ x = id ∨ v.Holds x
  isDirectory : ∀ x, x ≠ id → w.isDirectory x = v.isDirectory x
  nameOf : ∀ x, x ≠ id → w.nameOf x = v.nameOf x
  parentOf? : ∀ x, x ≠ id → w.parentOf? x = v.parentOf? x
  entries : ∀ x, w.entries x = v.entries x
  cwd : w.cwd = v.cwd
  size : v.slots.size ≤ w.slots.size

/-- A childless inode in a new slot is listed nowhere yet, and everything else is as it was. -/
theorem inserted_insert (v : Volume) {node : Inode} (h : node.entries = []) :
    Inserted v (v.insert node).2 (v.insert node).1 := by
  have hSize : v.get? v.slots.size = none := get?_size_le (Nat.le_refl _)
  change Inserted v (v.insert node).2 v.slots.size
  have hGet := get?_insert v node
  refine ⟨by simp [Holds, hSize], fun x => ?_, fun x hx => ?_, fun x hx => ?_, fun x hx => ?_,
    fun x => ?_, rfl, by simp [insert]⟩
  · by_cases hx : x = v.slots.size <;> simp [Holds, hGet, hx]
  · simp [Volume.isDirectory, hGet, hx]
  · simp [Volume.nameOf, hGet, hx]
  · simp [Volume.parentOf?, hGet, hx]
  · by_cases hx : x = v.slots.size
    · simp [Volume.entries, hGet, hx, hSize, h]
    · simp [Volume.entries, hGet, hx]

theorem isDirectory_insert (v : Volume) (node : Inode) :
    (v.insert node).2.isDirectory (v.insert node).1 = node.isDirectory := by
  change (v.insert node).2.isDirectory v.slots.size = _
  rw [isDirectory, get?_insert, if_pos rfl]

/-- What emptying slots does. -/
structure Discarded (v w : Volume) (ids : List InodeId) : Prop where
  holds : ∀ x, w.Holds x ↔ x ∉ ids ∧ v.Holds x
  isDirectory : ∀ x, x ∉ ids → w.isDirectory x = v.isDirectory x
  nameOf : ∀ x, x ∉ ids → w.nameOf x = v.nameOf x
  parentOf? : ∀ x, x ∉ ids → w.parentOf? x = v.parentOf? x
  entries : ∀ x, w.entries x = if x ∈ ids then [] else v.entries x

theorem discarded_discard (v : Volume) (ids : List InodeId) : Discarded v (v.discard ids) ids := by
  have hGet := get?_discard v ids
  refine ⟨fun x => ?_, fun x hx => ?_, fun x hx => ?_, fun x hx => ?_, fun x => ?_⟩
  · by_cases hx : x ∈ ids <;> simp [Holds, hGet, hx]
  · simp [Volume.isDirectory, hGet, hx]
  · simp [Volume.nameOf, hGet, hx]
  · simp [Volume.parentOf?, hGet, hx]
  · by_cases hx : x ∈ ids <;> simp [Volume.entries, hGet, hx]

end TreeShell.Volume
