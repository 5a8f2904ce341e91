import TreeShell.Proofs.Volume.Create
import TreeShell.Volume.Relocate

/-! Removing, moving and copying keep a volume sound. What is removed is all that is below
an inode, since no way in the table is longer than the table; what is moved does not go
below itself, since the destination is looked for on the whole way down. -/
namespace TreeShell.Volume

theorem Forest.withCwd {loose : List InodeId} {v : Volume} (h : Forest loose v) (cwd : InodeId) :
    Forest loose { v with cwd := cwd } := by
  refine ⟨h.rootDirectory, h.rootParent, h.topsNodup, h.looseHeld, h.entry, h.namesNodup, ?_⟩
  intro id hId
  obtain ⟨top, hTop, steps, hLeads⟩ := h.underTop id hId
  have hKept : ∀ d, v.entries d ⊆ entries { v with cwd := cwd } d := fun _ => List.Subset.refl _
  exact ⟨top, hTop, steps, hLeads.mono hKept⟩

/-- What removing an inode does. -/
structure Removed (v w : Volume) (id : InodeId) : Prop where
  forest : Forest [] w
  holds : ∀ x, v.Holds x → (∀ steps, ¬ Leads v id steps x) → w.Holds x
  isDirectory : ∀ x, (∀ steps, ¬ Leads v id steps x) → w.isDirectory x = v.isDirectory x
  entries : ∀ d name x, (name, x) ∈ w.entries d → (name, x) ∈ v.entries d ∧ x ≠ id
  cwd : w.cwd = v.cwd

/-- The subtree that is discarded is found before its top is taken out of its directory. -/
theorem Forest.removed {v : Volume} {id : InodeId} (h : Forest [] v) (hId : v.Holds id)
    (hRoot : id ≠ root) (now : Instant) :
    Removed v ((v.unlink now id).discard (v.subtree id)) id := by
  obtain ⟨directory, hParent, hListed⟩ := h.exists_listed hId (by simpa using hRoot)
  have hNe : directory ≠ id := by
    rintro rfl
    have hCycle := h.steps_eq_zero hId (Leads.here.down hListed)
    omega
  have hLoose := relinked_unlink now (h.parent_isDirectory hParent) hParent hNe
  have hGone := discarded_discard (v.unlink now id) (v.subtree id)
  have hSubtree : ∀ x, x ∈ v.subtree id ↔ ∃ steps, Leads (v.unlink now id) id steps x := by
    intro x
    rw [h.mem_subtree hId]
    constructor
    · rintro ⟨steps, hLeads⟩
      exact ⟨steps, h.leads_detached hListed hLoose hLeads⟩
    · rintro ⟨steps, hLeads⟩
      exact ⟨steps, h.leads_of_detached hListed hLoose hLeads⟩
  have hOut : ∀ x, (∀ steps, ¬ Leads v id steps x) → x ∉ v.subtree id := by
    intro x hx hMem
    obtain ⟨steps, hLeads⟩ := (h.mem_subtree hId).mp hMem
    exact hx steps hLeads
  refine ⟨(h.detached hListed hLoose).discarded hGone hSubtree, ?_, ?_, ?_, hLoose.cwd⟩
  · exact fun x hHeld hx => (hGone.holds x).mpr ⟨hOut x hx, (hLoose.holds x).mpr hHeld⟩
  · intro x hx
    rw [hGone.isDirectory x (hOut x hx), hLoose.isDirectory]
  · intro d name x hEntry
    rw [hGone.entries] at hEntry
    split at hEntry
    · simp at hEntry
    · exact (h.entries_detached hListed hLoose).mp hEntry

/-- Removing never leaves the current directory outside of the tree. -/
theorem Sound.remove {v w : Volume} {now : Instant} {path : Text} {recursive : Bool} (h : Sound v)
    (hw : v.remove now path recursive = .ok w) : Sound w := by
  simp only [Volume.remove, check_eq_ok, bind_eq_ok] at hw
  obtain ⟨found, hFound, hRoot, _, hSame⟩ := hw
  have hHeld := h.holds_lookup hFound
  have hRoot : found ≠ root := by simpa using hRoot
  have hGone := h.forest.removed hHeld hRoot now
  cases hSame
  refine ⟨hGone.forest.withCwd _, ?_⟩
  change ((v.unlink now found).discard (v.subtree found)).isDirectory
    (if v.isAncestor found v.cwd then (v.parentOf? found).getD root else v.cwd) = true
  split
  · obtain ⟨directory, hParent, hListed⟩ := h.forest.exists_listed hHeld (by simpa using hRoot)
    rw [hParent, Option.getD_some, hGone.isDirectory directory]
    · exact h.forest.parent_isDirectory hParent
    · intro steps hLeads
      have hCycle := h.forest.steps_eq_zero hHeld (hLeads.down hListed)
      omega
  · rename_i hAbove
    rw [hGone.isDirectory v.cwd]
    · exact h.cwdDirectory
    · intro steps hLeads
      exact hAbove ((h.forest.isAncestor_iff hHeld).mpr ⟨steps, hLeads⟩)

/-- A destination is in a directory. -/
theorem isDirectory_of_destination {v : Volume} {source directory : InodeId} {target name : Text}
    (h : v.destination source target = .ok (directory, name)) : v.isDirectory directory = true := by
  rw [destination] at h
  split at h
  · split at h
    · rename_i hKind
      cases h
      exact hKind
    · exact isDirectory_of_placeFor h
  · exact isDirectory_of_placeFor h

/-- An inode can go into a directory. -/
structure Movable (v : Volume) (node directory : InodeId) : Prop where
  held : v.Holds node
  notRoot : node ≠ root
  isDirectory : v.isDirectory directory = true
  notBelow : ∀ steps, ¬ Leads v node steps directory

/-- An inode that goes into a directory outside of its subtree leaves a tree behind. -/
theorem Sound.moved {v : Volume} {node directory : InodeId} {name : Text} (h : Sound v)
    (hMovable : Movable v node directory)
    (hFree : ∀ x, (name, x) ∈ v.entries directory → x = node) (now : Instant) :
    Sound ((v.unlink now node).link now directory node name) := by
  obtain ⟨old, hParent, hListed⟩ :=
    h.forest.exists_listed hMovable.held (by simpa using hMovable.notRoot)
  have hNe : old ≠ node := by
    rintro rfl
    have hCycle := h.forest.steps_eq_zero hMovable.held (Leads.here.down hListed)
    omega
  have hLoose := relinked_unlink now (h.forest.parent_isDirectory hParent) hParent hNe
  have hOther : directory ≠ node := by
    rintro rfl
    exact hMovable.notBelow 0 .here
  have hDirectory : (v.unlink now node).isDirectory directory = true := by
    rw [hLoose.isDirectory, hMovable.isDirectory]
  have hw := relinked_attach name hDirectory ((hLoose.holds node).mpr hMovable.held) hOther
  have hForest : Forest [] ((v.unlink now node).attach directory node name) := by
    refine (h.forest.detached hListed hLoose).attached hw (holds_of_isDirectory hDirectory) ?_ ?_
    · intro steps hLeads
      exact hMovable.notBelow steps (h.forest.leads_of_detached hListed hLoose hLeads)
    · intro hMem
      obtain ⟨⟨_, x⟩, hEntry, rfl⟩ := List.mem_map.mp hMem
      obtain ⟨hBefore, hx⟩ := (h.forest.entries_detached hListed hLoose).mp hEntry
      exact hx (hFree x hBefore)
  have hSound : Sound ((v.unlink now node).attach directory node name) :=
    ⟨hForest, by rw [hw.cwd, hw.isDirectory, hLoose.cwd, hLoose.isDirectory, h.cwdDirectory]⟩
  exact hSound.sameShape (sameShape_touch _ now directory)

/-- Nothing is below a file. -/
theorem Leads.eq_of_file {v : Volume} {id x : InodeId} {steps : Nat} (h : Leads v id steps x)
    (hFile : v.isDirectory id = false) : x = id := by
  cases steps with
  | zero =>
      cases h
      rfl
  | succ steps =>
      obtain ⟨_, _, hChild, _⟩ := h.head
      rw [isDirectory_of_entry hChild] at hFile
      cases hFile

/-- A file that stands in the way is removed; all else stays where it was. -/
theorem Sound.cleared {v : Volume} {node directory existing : InodeId} {name : Text} (h : Sound v)
    (hMovable : Movable v node directory) (hListed : (name, existing) ∈ v.entries directory)
    (hFile : v.isDirectory existing = false) (hOther : node ≠ existing) (now : Instant) :
    Sound ((v.unlink now existing).discard (v.subtree existing)) ∧
      Movable ((v.unlink now existing).discard (v.subtree existing)) node directory ∧
      ∀ x, (name, x) ∉ ((v.unlink now existing).discard (v.subtree existing)).entries directory := by
  obtain ⟨hTop, hHeld, _, _⟩ := h.forest.entry directory name existing hListed
  have hGone := h.forest.removed hHeld (by simpa using hTop) now
  have hStays : ∀ x, x ≠ existing → ∀ steps, ¬ Leads v existing steps x :=
    fun x hx steps hLeads => hx (hLeads.eq_of_file hFile)
  have hDirectory : ∀ x, v.isDirectory x = true →
      ((v.unlink now existing).discard (v.subtree existing)).isDirectory x = true := by
    intro x hx
    have hNe : x ≠ existing := by
      rintro rfl
      rw [hx] at hFile
      cases hFile
    rw [hGone.isDirectory x (hStays x hNe), hx]
  refine ⟨⟨hGone.forest, by rw [hGone.cwd]; exact hDirectory _ h.cwdDirectory⟩, ⟨?_, ?_, ?_, ?_⟩, ?_⟩
  · exact hGone.holds node hMovable.held (hStays node hOther)
  · exact hMovable.notRoot
  · exact hDirectory directory hMovable.isDirectory
  · intro steps hLeads
    exact hMovable.notBelow steps
      (hLeads.mono fun d entry hEntry => (hGone.entries d entry.1 entry.2 hEntry).1)
  · intro x hEntry
    obtain ⟨hBefore, hx⟩ := hGone.entries directory name x hEntry
    exact hx (h.forest.id_unique hBefore hListed)

/-- Moving keeps a volume sound, also over a file and onto itself. -/
theorem Sound.move {v w : Volume} {now : Instant} {source target : Text} {id : InodeId}
    (h : Sound v) (hw : v.move now source target = .ok (id, w)) : Sound w := by
  simp only [Volume.move, check_eq_ok, bind_eq_ok] at hw
  obtain ⟨node, hNode, hRoot, ⟨directory, name⟩, hPlace, hAbove, hRest⟩ := hw
  have hHeld := h.holds_lookup hNode
  have hMovable : Movable v node directory := by
    refine ⟨hHeld, by simpa using hRoot, isDirectory_of_destination hPlace, ?_⟩
    intro steps hLeads
    exact hAbove ((h.forest.isAncestor_iff hHeld).mpr ⟨steps, hLeads⟩)
  split at hRest
  · rename_i existing hChild
    have hListed := mem_entries_of_child? hChild
    split at hRest
    · rename_i hSame
      rw [beq_iff_eq] at hSame
      subst hSame
      cases hRest
      exact h.moved hMovable (fun x hx => h.forest.id_unique hx hListed) now
    · rename_i hOther
      split at hRest
      · cases hRest
      · rename_i hFile
        split at hRest
        · cases hRest
        · have hNe : node ≠ existing := by
            rintro rfl
            simp at hOther
          cases hRest
          obtain ⟨hSound, hStill, hFree⟩ :=
            h.cleared hMovable hListed (by simpa using hFile) hNe now
          exact hSound.moved hStill (fun x hx => absurd hx (hFree x)) now
  · rename_i hChild
    cases hRest
    refine h.moved hMovable (fun x hx => ?_) now
    exact absurd (List.mem_map_of_mem hx) (child?_eq_none_iff.mp hChild)

/-- A volume with one more child in a directory, and new inodes below that. -/
structure OneMore (v w : Volume) (directory : InodeId) (name : Text) : Prop where
  forest : Forest [] w
  grown : Grown directory v w
  names : (w.entries directory).map Prod.fst = (v.entries directory).map Prod.fst ++ [name]

theorem Added.oneMore {v w : Volume} {directory id : InodeId} {name : Text} {kind : Bool}
    (h : Added [] v w directory id name kind) : OneMore v w directory name :=
  ⟨h.forest, h.grown, by rw [h.listed]; simp⟩

/-- A new directory is filled. -/
theorem Added.filled {v start w : Volume} {directory made : InodeId} {name : Text} {kind : Bool}
    (h : Added [] v start directory made name kind) (hDirectory : v.Holds directory)
    (hForest : Forest [] w) (hInner : Grown made start w) : OneMore v w directory name := by
  have hKept : ∀ x, v.Holds x → w.entries x = start.entries x := by
    intro x hx
    refine hInner.others x (h.grown.holds x hx) ?_
    rintro rfl
    exact h.fresh hx
  refine ⟨hForest, ⟨?_, ?_, ?_, ?_, ?_⟩, ?_⟩
  · exact fun x hx => hInner.holds x (h.grown.holds x hx)
  · exact fun x hx => hInner.isDirectory x (h.grown.isDirectory x hx)
  · exact fun x => List.Subset.trans (h.grown.entries x) (hInner.entries x)
  · exact fun x hx hOther => (hKept x hx).trans (h.grown.others x hx hOther)
  · exact hInner.cwd.trans h.grown.cwd
  · rw [hKept directory hDirectory]
    exact h.oneMore.names

/-- Children with different names are entered one after the other. -/
theorem Forest.enterEach {enterOne : Volume → InodeId → Volume} {nameOf : InodeId → Text}
    {made : InodeId}
    (hOne : ∀ w child, Forest [] w → w.isDirectory made = true →
      nameOf child ∉ (w.entries made).map Prod.fst →
        OneMore w (enterOne w child) made (nameOf child))
    (children : List (Text × InodeId)) {w : Volume} (h : Forest [] w)
    (hMade : w.isDirectory made = true)
    (hNames : ((w.entries made).map Prod.fst ++ children.map fun child => nameOf child.2).Nodup) :
    Forest [] (children.foldl (fun w (_, child) => enterOne w child) w) ∧
      Grown made w (children.foldl (fun w (_, child) => enterOne w child) w) := by
  induction children generalizing w with
  | nil => exact ⟨h, Grown.refl made w⟩
  | cons child children ih =>
      obtain ⟨_, child⟩ := child
      have hFree : nameOf child ∉ (w.entries made).map Prod.fst := by
        intro hMem
        exact List.disjoint_of_nodup_append hNames hMem (by simp)
      have hNext := hOne w child h hMade hFree
      obtain ⟨hLast, hLater⟩ := ih hNext.forest (hNext.grown.isDirectory made hMade)
        (by rw [hNext.names]; simpa using hNames)
      exact ⟨hLast, hNext.grown.trans hLater⟩

/-- A copy is one new child of its directory. The induction is on the levels that are
copied; on each of them the children that are copied have got different names. -/
theorem Forest.copyInto {v : Volume} (h : Forest [] v) (now : Instant) (bound : Nat)
    (source : InodeId) {directory : InodeId} {name : Text}
    (hDirectory : v.isDirectory directory = true)
    (hName : name ∉ (v.entries directory).map Prod.fst) :
    OneMore v (copyInto now bound v source directory name).2 directory name := by
  induction bound generalizing v source directory name with
  | zero =>
      have hAdded := h.add now hDirectory hName
        (show (Inode.mk name (some directory) now now (.directory [])).entries = [] from rfl)
      exact hAdded.oneMore
  | succ bound ih =>
      rw [Volume.copyInto]
      split
      · rename_i content _
        have hAdded := h.add now hDirectory hName
          (show (Inode.mk name (some directory) now now (.file content)).entries = [] from rfl)
        exact hAdded.oneMore
      · have hAdded := h.add now hDirectory hName
          (show (Inode.mk name (some directory) now now (.directory [])).entries = [] from rfl)
        obtain ⟨hForest, hInner⟩ := @Forest.enterEach _ v.nameOf _
          (fun w child hw hMade hFree => ih hw child hMade hFree) (v.entries source) _
          hAdded.forest hAdded.isDirectory (by rw [hAdded.bare, h.childNames]; exact h.namesNodup source)
        exact hAdded.filled (holds_of_isDirectory hDirectory) hForest hInner

/-- A copy goes into a directory outside of what is copied or is refused, so the volume stays sound.
-/
theorem Sound.copy {v w : Volume} {now : Instant} {source target : Text} {recursive : Bool}
    {id : InodeId} (h : Sound v) (hw : v.copy now source target recursive = .ok (id, w)) :
    Sound w := by
  simp only [Volume.copy, check_eq_ok, bind_eq_ok] at hw
  obtain ⟨node, _, _, ⟨directory, name⟩, hPlace, _, hRest⟩ := hw
  split at hRest
  · split at hRest
    · rename_i hContent
      cases hRest
      exact h.sameShape (sameShape_setContent now hContent _)
    · cases hRest
  · rename_i hChild
    have hCopy := h.forest.copyInto now v.slots.size node
      (isDirectory_of_destination hPlace) (child?_eq_none_iff.mp hChild)
    rw [Except.ok.inj hRest] at hCopy
    exact h.grown hCopy.forest hCopy.grown

theorem Sound.changeDirectory {v w : Volume} {path : Text} (h : Sound v)
    (hw : v.changeDirectory path = .ok w) : Sound w := by
  rw [Volume.changeDirectory] at hw
  split at hw
  · cases hw
    exact ⟨h.forest.withCwd root, h.forest.rootDirectory⟩
  · simp only [check_eq_ok, bind_eq_ok] at hw
    obtain ⟨found, _, hKind, hSame⟩ := hw
    cases hSame
    rw [Bool.not_eq_true, Bool.not_eq_false'] at hKind
    exact ⟨h.forest.withCwd found, hKind⟩

end TreeShell.Volume
