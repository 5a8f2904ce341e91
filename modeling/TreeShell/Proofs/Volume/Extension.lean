import TreeShell.Proofs.Volume.Frame

/-! Adding to a volume. A directory gets one more child, which is new with all that is below it, and
what was there before stays as it was: paths that led somewhere lead there still. -/
namespace TreeShell.Volume

section Grown

variable {v w : Volume} (hv : Forest [] v) (hw : Forest [] w) {directory : InodeId}
  (hGrown : Grown directory v w)
include hv hw hGrown

theorem Grown.parentOf?_eq {id : InodeId} (hId : v.Holds id) : w.parentOf? id = v.parentOf? id := by
  by_cases hRoot : id = root
  · rw [hRoot, hv.rootParent, hw.rootParent]
  · obtain ⟨up, hUp, hListed⟩ := hv.exists_listed hId (by simpa using hRoot)
    rw [hUp]
    exact (hw.entry _ _ _ (hGrown.entries up hListed)).2.2.2

/-- A part of a path that could be followed can be followed after more has been added. -/
theorem Grown.follow {path part : Text} {current found : InodeId} (hCurrent : v.Holds current)
    (hFound : v.follow path current part = .ok found) : w.follow path current part = .ok found := by
  rw [Volume.follow] at hFound ⊢
  split at hFound
  · rename_i hStay
    rwa [if_pos hStay]
  · rename_i hMoves
    rw [if_neg hMoves]
    split at hFound
    · cases hFound
    · rename_i hKind
      rw [Bool.not_eq_true', Bool.not_eq_false] at hKind
      simp only [hGrown.isDirectory current hKind, Bool.not_true, Bool.false_eq_true, if_false]
      split at hFound
      · rename_i hUp
        rwa [if_pos hUp, hGrown.parentOf?_eq hv hw hCurrent]
      · rename_i hDown
        rw [if_neg hDown]
        split at hFound
        · rename_i hChild
          rw [hw.child?_eq (hGrown.entries current (mem_entries_of_child? hChild))]
          exact hFound
        · cases hFound

/-- A path that could be followed leads to the same inode after growth. -/
theorem Grown.followAll {path : Text} {parts : List Text} {start found : InodeId}
    (hStart : v.Holds start) (hFound : parts.foldlM (v.follow path) start = .ok found) :
    parts.foldlM (w.follow path) start = .ok found := by
  induction parts generalizing start with
  | nil => exact hFound
  | cons part parts ih =>
      rw [List.foldlM_cons, bind_eq_ok] at hFound ⊢
      obtain ⟨next, hNext, hRest⟩ := hFound
      exact ⟨next, hGrown.follow hv hw hStart hNext, ih (hv.holds_follow hStart hNext) hRest⟩

end Grown

/-- A path that leads to an inode still does so in a volume that has grown. -/
theorem Sound.lookup_grown {v w : Volume} {directory : InodeId} (hv : Sound v) (hw : Forest [] w)
    (hGrown : Grown directory v w) {path : Text} {found : InodeId}
    (hFound : v.lookup path = .ok found) : w.lookup path = .ok found := by
  have hHeld := hv.holds_lookup hFound
  have hOrigin : v.Holds (if Path.isAbsolute path then root else v.cwd) := by
    split
    · exact holds_of_isDirectory hv.forest.rootDirectory
    · exact holds_of_isDirectory hv.cwdDirectory
  rw [lookup, lookupFrom_eq_ok] at hFound ⊢
  obtain ⟨hSome, hReached, hKind⟩ := hFound
  rw [startAt_of_isDirectory hv.cwdDirectory] at hReached
  rw [hGrown.cwd, startAt_of_isDirectory (hGrown.isDirectory _ hv.cwdDirectory)]
  refine ⟨hSome, hGrown.followAll hv.forest hw hOrigin hReached, fun hLast => ?_⟩
  have hFile := hKind hLast
  rw [hHeld.isFile_eq, Bool.not_eq_false'] at hFile
  rw [(hGrown.holds found hHeld).isFile_eq, hGrown.isDirectory found hFile, Bool.not_true]

/-- Only a directory has changed, and everything that is listed anywhere and was not listed before is
new. -/
structure Enlarged (v w : Volume) (directory : InodeId) : Prop where
  forest : Forest [] w
  size : v.slots.size ≤ w.slots.size
  isDirectory : w.isDirectory directory = true
  entries : v.entries directory ⊆ w.entries directory
  inodes : ∀ x < v.slots.size, x ≠ directory → w.get? x = v.get? x
  others : ∀ d name x, (name, x) ∈ w.entries d → (name, x) ∈ v.entries d ∨ v.slots.size ≤ x
  cwd : w.cwd = v.cwd

theorem Enlarged.refl {v : Volume} (h : Forest [] v) {directory : InodeId}
    (hDirectory : v.isDirectory directory = true) : Enlarged v v directory :=
  ⟨h, Nat.le_refl _, hDirectory, List.Subset.refl _, fun _ _ _ => rfl, fun _ _ _ hListed => Or.inl hListed,
    rfl⟩

theorem Enlarged.trans {u v w : Volume} {directory : InodeId} (first : Enlarged u v directory)
    (second : Enlarged v w directory) : Enlarged u w directory where
  forest := second.forest
  size := Nat.le_trans first.size second.size
  isDirectory := second.isDirectory
  entries := List.Subset.trans first.entries second.entries
  inodes x hx hOther :=
    (second.inodes x (Nat.lt_of_lt_of_le hx first.size) hOther).trans (first.inodes x hx hOther)
  others d name x hListed := by
    rcases second.others d name x hListed with hBefore | hNew
    · exact first.others d name x hBefore
    · exact Or.inr (Nat.le_trans first.size hNew)
  cwd := second.cwd.trans first.cwd

section Enlarged

variable {v w : Volume} {directory : InodeId} (h : Enlarged v w directory)
  (hDirectory : v.isDirectory directory = true)
include h

theorem Enlarged.holds_of_holds {x : InodeId} (hx : v.Holds x) : w.Holds x := by
  by_cases hd : x = directory
  · rw [hd]
    exact holds_of_isDirectory h.isDirectory
  · exact (holds_congr (h.inodes x hx.lt hd)).mpr hx

/-- What is below an inode is the same when the directory is not below it. -/
theorem Enlarged.get?_of_leads (hv : Forest [] v) {top : InodeId} (hTop : v.Holds top)
    (hOut : ∀ steps, ¬ Leads v top steps directory) {x : InodeId} {steps : Nat}
    (hLeads : Leads v top steps x) : w.get? x = v.get? x := by
  refine h.inodes x (hv.holds_of_leads hTop hLeads).lt ?_
  rintro rfl
  exact hOut steps hLeads

include hDirectory

theorem Enlarged.isDirectory_eq {x : InodeId} (hx : x < v.slots.size) :
    w.isDirectory x = v.isDirectory x := by
  by_cases hd : x = directory
  · rw [hd, hDirectory, h.isDirectory]
  · exact isDirectory_congr (h.inodes x hx hd)

theorem Enlarged.content?_eq {x : InodeId} (hx : x < v.slots.size) :
    w.content? x = v.content? x := by
  by_cases hd : x = directory
  · rw [hd, content?_eq_none hDirectory, content?_eq_none h.isDirectory]
  · exact content?_congr (h.inodes x hx hd)

/-- An enlarged directory still answers for everything that was in it. -/
theorem Enlarged.grown : Grown directory v w where
  holds _ hx := h.holds_of_holds hx
  isDirectory x hx := (h.isDirectory_eq hDirectory (holds_of_isDirectory hx).lt).trans hx
  entries x := by
    by_cases hd : x = directory
    · rw [hd]
      exact h.entries
    · by_cases hx : v.Holds x
      · rw [entries_congr (h.inodes x hx.lt hd)]
        exact List.Subset.refl _
      · rw [entries_of_not_holds hx]
        exact List.nil_subset _
  others x hx hOther := entries_congr (h.inodes x hx.lt hOther)
  cwd := h.cwd

theorem Enlarged.stays (hv : Forest [] v) {x : InodeId} (hx : v.Holds x) : Stays v w x := by
  refine ⟨h.holds_of_holds hx, hv.pathOf_keep h.forest hx ?_, h.isDirectory_eq hDirectory hx.lt,
    h.content?_eq hDirectory hx.lt⟩
  exact fun d _ _ _ hListed _ => (h.grown hDirectory).entries d hListed

end Enlarged

/-- A directory has got one more child. The child is new, and so is all that is listed anywhere and
was not listed before; the inodes that were there are as they were. -/
structure Extended (v w : Volume) (now : Instant) (directory : InodeId) (name : Text)
    (id : InodeId) : Prop where
  forest : Forest [] w
  fresh : v.slots.size ≤ id
  listed : w.get? directory = (v.get? directory).map fun up =>
    { up with modified := now, body := .directory (up.entries ++ [(name, id)]) }
  inodes : ∀ x < v.slots.size, x ≠ directory → w.get? x = v.get? x
  others : ∀ d other x, (other, x) ∈ w.entries d → (other, x) ∈ v.entries d ∨ v.slots.size ≤ x
  cwd : w.cwd = v.cwd

/-- Creating a child extends the tree at one free place, with one inode of a fresh number. -/
theorem Forest.extended {v : Volume} (h : Forest [] v) (now : Instant) {directory : InodeId}
    {name : Text} {body : Body} (hDirectory : v.isDirectory directory = true)
    (hName : name ∉ (v.entries directory).map Prod.fst)
    (hBody : (Inode.mk name (some directory) now now body).entries = []) :
    Extended v (v.add now directory name body).2 now directory name (v.add now directory name body).1 := by
  have hHeld := holds_of_isDirectory hDirectory
  have hGet := get?_add v now hHeld name body
  have hAdded := h.add now hDirectory hName hBody
  refine ⟨hAdded.forest, Nat.le_refl _, ?_, fun x hx hOther => ?_, fun d other x hListed => ?_,
    hAdded.grown.cwd⟩
  · rw [hGet, if_neg (Nat.ne_of_lt hHeld.lt), if_pos rfl]
    rfl
  · rw [hGet, if_neg (Nat.ne_of_lt hx), if_neg hOther]
  · rw [entries_add now hHeld name hBody, List.mem_append] at hListed
    refine hListed.imp_right fun hNew => ?_
    split at hNew
    · rw [List.mem_singleton, Prod.mk.injEq] at hNew
      exact Nat.le_of_eq hNew.2.symm
    · cases hNew

section Extended

variable {v w : Volume} {now : Instant} {directory id : InodeId} {name : Text}
  (h : Extended v w now directory name id) (hv : Forest [] v)
  (hDirectory : v.isDirectory directory = true)
include h

/-- Whatever is below the new child is new. -/
theorem Extended.size_le_of_leads {x : InodeId} {steps : Nat} (hLeads : Leads w id steps x) :
    v.slots.size ≤ x := by
  induction hLeads with
  | here => exact h.fresh
  | @down steps d x other _ listed ih =>
      refine (h.others d other x listed).resolve_left fun hListed => ?_
      rw [entries_of_size_le ih] at hListed
      cases hListed

include hDirectory

/-- The new child is listed last in its directory, and nowhere else. -/
theorem Extended.entries {x : InodeId} (hx : x < v.slots.size) :
    w.entries x = v.entries x ++ if x = directory then [(name, id)] else [] := by
  by_cases hd : x = directory
  · subst hd
    obtain ⟨up, hUp⟩ := holds_iff.mp (holds_of_isDirectory hDirectory)
    have hNow := h.listed
    rw [hUp] at hNow
    rw [if_pos rfl]
    simp [Volume.entries, hUp, hNow, Inode.entries]
  · rw [if_neg hd, List.append_nil, entries_congr (h.inodes x hx hd)]

theorem Extended.mem_entries : (name, id) ∈ w.entries directory := by
  rw [h.entries hDirectory (holds_of_isDirectory hDirectory).lt, if_pos rfl]
  simp

theorem Extended.holds : w.Holds id := (h.forest.entry _ _ _ (h.mem_entries hDirectory)).2.1

theorem Extended.enlarged : Enlarged v w directory where
  forest := h.forest
  size := Nat.le_of_lt (Nat.lt_of_le_of_lt h.fresh (h.holds hDirectory).lt)
  isDirectory := isDirectory_of_entry (h.mem_entries hDirectory)
  entries := by
    rw [h.entries hDirectory (holds_of_isDirectory hDirectory).lt]
    exact List.subset_append_left _ _
  inodes := h.inodes
  others := h.others
  cwd := h.cwd

/-- The new child is not above its directory. -/
theorem Extended.not_leads (steps : Nat) : ¬ Leads w id steps directory := by
  intro hUp
  have hFirst := Leads.here.down (h.mem_entries hDirectory)
  have hCycle := h.forest.steps_eq_zero (h.forest.holds_of_leads (h.holds hDirectory) hUp)
    (hFirst.trans hUp)
  omega

include hv in
/-- What is new is below the new child. -/
theorem Extended.holds_iff {x : InodeId} :
    w.Holds x ↔ v.Holds x ∨ ∃ steps, Leads w id steps x := by
  constructor
  · intro hx
    obtain ⟨top, hTop, steps, hLeads⟩ := h.forest.underTop x hx
    obtain rfl := List.mem_singleton.mp hTop
    clear hx
    induction hLeads with
    | here => exact Or.inl (holds_of_isDirectory hv.rootDirectory)
    | @down steps d x other _ listed ih =>
        rcases ih with hOld | ⟨count, hNew⟩
        · rw [h.entries hDirectory hOld.lt, List.mem_append] at listed
          rcases listed with hBefore | hLast
          · exact Or.inl (hv.entry d other x hBefore).2.1
          · split at hLast
            · obtain ⟨_, rfl⟩ := Prod.mk.inj (List.mem_singleton.mp hLast)
              exact Or.inr ⟨0, .here⟩
            · cases hLast
        · exact Or.inr ⟨count + 1, hNew.down listed⟩
  · rintro (hx | ⟨steps, hLeads⟩)
    · exact (h.enlarged hDirectory).holds_of_holds hx
    · exact h.forest.holds_of_leads (h.holds hDirectory) hLeads

/-- The new child is filled after it has been entered. -/
theorem Extended.filled {filled : Volume} (hInner : Enlarged w filled id) :
    Extended v filled now directory name id := by
  have hLess : ∀ x < v.slots.size, x < w.slots.size ∧ x ≠ id := fun x hx =>
    ⟨Nat.lt_of_lt_of_le hx (h.enlarged hDirectory).size, Nat.ne_of_lt (Nat.lt_of_lt_of_le hx h.fresh)⟩
  refine ⟨hInner.forest, h.fresh, ?_, fun x hx hOther => ?_, fun d other x hListed => ?_,
    hInner.cwd.trans h.cwd⟩
  · obtain ⟨hBound, hOther⟩ := hLess directory (holds_of_isDirectory hDirectory).lt
    rw [hInner.inodes directory hBound hOther, h.listed]
  · rw [hInner.inodes x (hLess x hx).1 (hLess x hx).2, h.inodes x hx hOther]
  · rcases hInner.others d other x hListed with hBefore | hNew
    · exact h.others d other x hBefore
    · exact Or.inr (Nat.le_trans (h.enlarged hDirectory).size hNew)

end Extended

end TreeShell.Volume
