import TreeShell.Proofs.Volume.Address

/-! What a change of the table leaves alone. Each change is described inode by inode, and what is
said of paths and walks follows: an inode keeps its path when every entry on the way to it stays, and
a walk is made of the entries that are met on it. -/
namespace TreeShell.Volume

/-! ## Inode by inode -/

section Same

variable {v w : Volume} {x : InodeId} (h : w.get? x = v.get? x)
include h

theorem holds_congr : w.Holds x ↔ v.Holds x := by rw [Holds, Holds, h]

theorem isDirectory_congr : w.isDirectory x = v.isDirectory x := by rw [isDirectory, isDirectory, h]

theorem content?_congr : w.content? x = v.content? x := by rw [content?, content?, h]

theorem entries_congr : w.entries x = v.entries x := by rw [entries, entries, h]

theorem nameOf_congr : w.nameOf x = v.nameOf x := by rw [nameOf, nameOf, h]

theorem parentOf?_congr : w.parentOf? x = v.parentOf? x := by rw [parentOf?, parentOf?, h]

end Same

theorem get?_eq_of_holds {v w : Volume} {x : InodeId} (hHolds : w.Holds x ↔ v.Holds x)
    (hKept : w.Holds x → w.get? x = v.get? x) : w.get? x = v.get? x := by
  by_cases hx : w.Holds x
  · exact hKept hx
  · have hGone := mt hHolds.mpr hx
    rw [Holds, Option.not_isSome_iff_eq_none] at hx hGone
    rw [hx, hGone]

/-- What is in the table is either a file or a directory. -/
theorem Holds.isFile_eq {v : Volume} {id : InodeId} (h : v.Holds id) :
    v.isFile id = !v.isDirectory id := by
  have hSome : (v.get? id).isSome = true := h
  rw [Volume.isFile_eq, hSome, Bool.true_and]

theorem content?_eq_none {v : Volume} {id : InodeId} (h : v.isDirectory id = true) :
    v.content? id = none := by
  have hFile := isFile_of_isDirectory h
  rw [isFile] at hFile
  simpa using hFile

theorem isDirectory_of_content?_eq_none {v : Volume} {id : InodeId} (hId : v.Holds id)
    (h : v.content? id = none) : v.isDirectory id = true := by
  have hFile := hId.isFile_eq
  rw [isFile, h] at hFile
  simpa using hFile

theorem holds_of_content? {v : Volume} {id : InodeId} {content : Text}
    (h : v.content? id = some content) : v.Holds id := by
  obtain ⟨node, hNode, _⟩ := Option.bind_eq_some_iff.mp h
  exact holds_iff.mpr ⟨node, hNode⟩

theorem isDirectory_of_content?_eq_some {v : Volume} {id : InodeId} {content : Text}
    (h : v.content? id = some content) : v.isDirectory id = false := by
  rw [← Bool.not_eq_true]
  intro hKind
  cases h.symm.trans (content?_eq_none hKind)

theorem entries_of_file {v : Volume} {id : InodeId} (h : v.isDirectory id = false) :
    v.entries id = [] := by
  refine List.eq_nil_iff_forall_not_mem.mpr fun entry hEntry => ?_
  cases h.symm.trans (isDirectory_of_entry hEntry)

theorem entries_of_not_holds {v : Volume} {id : InodeId} (h : ¬ v.Holds id) : v.entries id = [] := by
  refine List.eq_nil_iff_forall_not_mem.mpr fun entry hEntry => ?_
  exact h (holds_of_isDirectory (isDirectory_of_entry hEntry))

theorem entries_of_size_le {v : Volume} {id : InodeId} (h : v.slots.size ≤ id) : v.entries id = [] :=
  entries_of_not_holds fun hHeld => absurd hHeld.lt (Nat.not_lt_of_le h)

/-! ## Taking out, entering and adding -/

/-- Taking an inode out of its directory changes these two and no other. -/
theorem get?_unlink (v : Volume) (now : Instant) {directory id : InodeId}
    (hUp : v.parentOf? id = some directory) (hNe : directory ≠ id) (x : InodeId) :
    (v.unlink now id).get? x =
      if x = id then (v.get? id).map fun node => { node with parent := none }
      else if x = directory then (v.get? directory).map fun up =>
        { up with modified := now, body := .directory (up.entries.filter (·.1 != v.nameOf id)) }
      else v.get? x := by
  cases hNode : v.get? id with
  | none => simp [parentOf?, hNode] at hUp
  | some node =>
      obtain ⟨name, parent, created, modified, body⟩ := node
      obtain rfl : parent = some directory := by simpa [parentOf?, hNode] using hUp
      have hName : v.nameOf id = name := by rw [nameOf, hNode]
      rw [unlink, hNode, hName]
      simp only [get?_update, if_neg (Ne.symm hNe), hNode]

/-- Entering an inode in a directory changes these two and no other. -/
theorem get?_link (v : Volume) (now : Instant) {directory id : InodeId} (hNe : directory ≠ id)
    (name : Text) (x : InodeId) : (v.link now directory id name).get? x =
      if x = id then (v.get? id).map fun node =>
        { node with name := name, parent := some directory }
      else if x = directory then (v.get? directory).map fun up =>
        { up with modified := now, body := .directory (up.entries ++ [(name, id)]) }
      else v.get? x := by
  simp only [link, touch, get?_update, get?_attach v hNe, if_neg hNe]
  by_cases hx : x = id
  · subst hx
    simp [Ne.symm hNe]
  · by_cases hd : x = directory
    · subst hd
      simp [hx, Function.comp_def]
    · simp [hx, hd]

/-- The table behind a new child: a new slot at the end, and the directory with one more entry. -/
theorem get?_add (v : Volume) (now : Instant) {directory : InodeId} (hHeld : v.Holds directory)
    (name : Text) (body : Body) (x : InodeId) :
    (v.add now directory name body).2.get? x =
      if x = v.slots.size then some ⟨name, some directory, now, now, body⟩
      else if x = directory then (v.get? directory).map fun up =>
        { up with modified := now, body := .directory (up.entries ++ [(name, v.slots.size)]) }
      else v.get? x := by
  have hNe : directory ≠ v.slots.size := Nat.ne_of_lt hHeld.lt
  change ((v.insert _).2.link now directory v.slots.size name).get? x = _
  rw [get?_link _ now hNe, get?_insert_self, get?_insert_of_lt _ _ hHeld.lt, get?_insert]
  by_cases hx : x = v.slots.size <;> simp [hx]

/-- Adding an inode lists it last in its directory and changes no other directory. -/
theorem entries_add {v : Volume} (now : Instant) {directory : InodeId} (hHeld : v.Holds directory)
    (name : Text) {body : Body} (hBody : (Inode.mk name (some directory) now now body).entries = [])
    (d : InodeId) : (v.add now directory name body).2.entries d =
      v.entries d ++ if d = directory then [(name, v.slots.size)] else [] := by
  have hGet := get?_add v now hHeld name body d
  by_cases hNew : d = v.slots.size
  · have hOther : d ≠ directory := by
      rintro rfl
      exact absurd hHeld.lt (Nat.not_lt_of_le (Nat.le_of_eq hNew.symm))
    rw [if_pos hNew] at hGet
    rw [entries_of_size_le (Nat.le_of_eq hNew.symm), if_neg hOther, entries, hGet]
    exact hBody
  · rw [if_neg hNew] at hGet
    split
    · rename_i hd
      subst hd
      obtain ⟨up, hUp⟩ := holds_iff.mp hHeld
      rw [if_pos rfl, hUp] at hGet
      simp [entries, hGet, hUp, Inode.entries]
    · rename_i hd
      rw [if_neg hd] at hGet
      rw [entries_congr hGet, List.append_nil]

/-- A directory lists an inode under one name, and a name for one inode. -/
theorem Forest.filter_id_eq {v : Volume} (h : Forest [] v) {d id : InodeId} {name : Text}
    (hListed : (name, id) ∈ v.entries d) :
    (v.entries d).filter (·.2 != id) = (v.entries d).filter (·.1 != name) := by
  refine List.filter_congr fun entry hEntry => ?_
  rw [Bool.eq_iff_iff, bne_iff_ne, bne_iff_ne, not_iff_not]
  constructor
  · rintro rfl
    exact (h.entry d entry.1 entry.2 hEntry).2.2.1.symm.trans (h.entry d name entry.2 hListed).2.2.1
  · rintro rfl
    exact h.id_unique hEntry hListed

section Detaching

variable {v : Volume} (h : Forest [] v) {directory id : InodeId}
  (hUp : v.parentOf? id = some directory) (now : Instant)
include h hUp

theorem Forest.parent_ne : directory ≠ id := by
  rintro rfl
  have hListed := h.parentOf?_eq_some.mp hUp
  have hCycle := h.steps_eq_zero (h.entry _ _ _ hListed).2.1 (Leads.here.down hListed)
  omega

theorem Forest.relinked_unlink : Relinked v (v.unlink now id) directory
    ((v.entries directory).filter (·.1 != v.nameOf id)) id (v.nameOf id) none :=
  Volume.relinked_unlink now (h.parent_isDirectory hUp) hUp (h.parent_ne hUp)

/-- Wherever one looks, the entry of an inode that is taken out is all that is gone. -/
theorem Forest.entries_unlink (d : InodeId) :
    (v.unlink now id).entries d = (v.entries d).filter (·.2 != id) := by
  rw [(h.relinked_unlink hUp now).entries]
  have hListed := h.parentOf?_eq_some.mp hUp
  split
  · rename_i hd
    subst hd
    exact (h.filter_id_eq hListed).symm
  · rename_i hd
    refine (List.filter_eq_self.mpr fun entry hEntry => ?_).symm
    rw [bne_iff_ne]
    rintro rfl
    exact hd (h.directory_unique hEntry hListed)

theorem Forest.content?_unlink (x : InodeId) : (v.unlink now id).content? x = v.content? x := by
  have hKind := (h.relinked_unlink hUp now).isDirectory x
  by_cases hx : x = directory
  · have hDirectory : v.isDirectory x = true := hx ▸ h.parent_isDirectory hUp
    rw [content?_eq_none hDirectory, content?_eq_none (hKind.trans hDirectory)]
  · rw [content?, get?_unlink v now hUp (h.parent_ne hUp), if_neg hx]
    split
    · rename_i hSame
      subst hSame
      cases hNode : v.get? x <;> simp [content?, hNode, Inode.content?]
    · rw [content?]

end Detaching

section Linking

variable {v : Volume} {directory id : InodeId} (hDirectory : v.isDirectory directory = true)
  (hId : v.Holds id) (hNe : directory ≠ id) (now : Instant) (name : Text)
include hDirectory hId hNe

/-- Linking enters the inode last in its directory, which is now its parent. -/
theorem relinked_link : Relinked v (v.link now directory id name) directory
    (v.entries directory ++ [(name, id)]) id name (some directory) := by
  have hw := relinked_attach name hDirectory hId hNe
  have hShape := sameShape_touch (v.attach directory id name) now directory
  exact {
    holds := fun x => (hShape.holds x).trans (hw.holds x)
    isDirectory := fun x => (hShape.isDirectory x).trans (hw.isDirectory x)
    nameOf := fun x => (hShape.nameOf x).trans (hw.nameOf x)
    parentOf? := fun x => (hShape.parentOf? x).trans (hw.parentOf? x)
    entries := fun x => (hShape.entries x).trans (hw.entries x)
    cwd := hShape.cwd.trans hw.cwd
    size := hShape.size.trans hw.size }

theorem content?_link (x : InodeId) :
    (v.link now directory id name).content? x = v.content? x := by
  have hKind := (relinked_link hDirectory hId hNe now name).isDirectory x
  by_cases hx : x = directory
  · rw [← hx] at hDirectory
    rw [content?_eq_none hDirectory, content?_eq_none (hKind.trans hDirectory)]
  · rw [content?, get?_link v now hNe, if_neg hx]
    split
    · rename_i hSame
      subst hSame
      cases hNode : v.get? x <;> simp [content?, hNode, Inode.content?]
    · rw [content?]

end Linking

/-! ## Ways, paths and walks -/

/-- The names that lead to an inode still do so when every entry on the way to it stays. -/
theorem LeadsBy.keep {v w : Volume} {top x : InodeId} {names : List Text} (h : LeadsBy v top names x)
    (hKept : ∀ d name child steps, (name, child) ∈ v.entries d → Leads v child steps x →
      (name, child) ∈ w.entries d) : LeadsBy w top names x := by
  induction h with
  | here => exact .here
  | down listed later ih => exact .down (hKept _ _ _ _ listed later.leads) (ih hKept)

/-- An inode keeps its path when every entry on the way to it stays. -/
theorem Forest.pathOf_keep {v w : Volume} (hv : Forest [] v) (hw : Forest [] w) {x : InodeId}
    (hHeld : v.Holds x) (hKept : ∀ d name child steps, (name, child) ∈ v.entries d →
      Leads v child steps x → (name, child) ∈ w.entries d) : w.pathOf x = v.pathOf x := by
  obtain ⟨names, hNames⟩ := hv.exists_names hHeld
  rw [hv.pathOf_eq hNames, hw.pathOf_eq (hNames.keep hKept)]

/-- The path of a child is that of its directory and its name. -/
theorem Forest.pathOf_child {v : Volume} (h : Forest [] v) {directory id : InodeId} {name : Text}
    (hListed : (name, id) ∈ v.entries directory) :
    v.pathOf id = (if directory = root then [] else v.pathOf directory) ++ chr '/' :: name := by
  have hDirectory := holds_of_isDirectory (isDirectory_of_entry hListed)
  obtain ⟨names, hNames⟩ := h.exists_names hDirectory
  rw [h.pathOf_eq (hNames.append (.down hListed .here)), h.pathOf_eq hNames]
  split
  · rename_i hRoot
    subst hRoot
    obtain rfl := List.length_eq_zero_iff.mp (h.steps_eq_zero hDirectory hNames.leads)
    rfl
  · rename_i hRoot
    have hSome : names ≠ [] := by
      rintro rfl
      cases hNames
      exact hRoot rfl
    rw [Text.join_append _ hSome (List.cons_ne_nil _ _)]
    simp [Text.join]

/-- A walk is made of the entries and names that are met on it. -/
theorem walkWithin_congr {v w : Volume} {bound : Nat} {lead : Text} {id : InodeId}
    (hEntries : ∀ steps x, Leads v id steps x → w.entries x = v.entries x)
    (hNames : ∀ steps x, Leads v id (steps + 1) x → w.nameOf x = v.nameOf x) :
    w.walkWithin bound lead id = v.walkWithin bound lead id := by
  induction bound generalizing lead id with
  | zero => rfl
  | succ bound ih =>
      rw [walkWithin, walkWithin, hEntries 0 id .here]
      refine List.flatMap_congr fun entry hEntry => ?_
      have hFirst : Leads v id 1 entry.2 := Leads.here.down hEntry
      simp only [hNames 0 entry.2 hFirst]
      refine congrArg _ (ih (fun steps x hLeads => ?_) fun steps x hLeads => ?_)
      · exact hEntries _ x (hFirst.trans hLeads)
      · exact hNames (1 + steps) x (hFirst.trans hLeads)

/-- What is met on a walk is below the inode that it begins at. -/
theorem leads_of_mem_walkWithin {v : Volume} {bound : Nat} {lead : Text} {id : InodeId}
    {found : Text × InodeId} (h : found ∈ v.walkWithin bound lead id) :
    ∃ steps, Leads v id (steps + 1) found.2 := by
  induction bound generalizing lead id with
  | zero => cases h
  | succ bound ih =>
      rw [walkWithin, List.mem_flatMap] at h
      obtain ⟨entry, hEntry, hFound⟩ := h
      have hFirst : Leads v id 1 entry.2 := Leads.here.down hEntry
      rcases List.mem_cons.mp hFound with rfl | hLater
      · exact ⟨0, hFirst⟩
      · obtain ⟨steps, hLeads⟩ := ih hLater
        exact ⟨1 + steps, hFirst.trans hLeads⟩

/-- An inode is found at its path, and is a directory or holds its content, as it was before. -/
structure Stays (v w : Volume) (x : InodeId) : Prop where
  held : w.Holds x
  pathOf : w.pathOf x = v.pathOf x
  isDirectory : w.isDirectory x = v.isDirectory x
  content? : w.content? x = v.content? x

theorem Stays.refl {v : Volume} {x : InodeId} (h : v.Holds x) : Stays v v x := ⟨h, rfl, rfl, rfl⟩

theorem Stays.trans {u v w : Volume} {x : InodeId} (first : Stays u v x) (second : Stays v w x) :
    Stays u w x :=
  ⟨second.held, second.pathOf.trans first.pathOf, second.isDirectory.trans first.isDirectory,
    second.content?.trans first.content?⟩

end TreeShell.Volume
