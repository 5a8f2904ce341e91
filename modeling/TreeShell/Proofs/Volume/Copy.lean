import TreeShell.Proofs.Volume.Apart
import TreeShell.Proofs.Volume.Bisimulation

/-! Copying makes a subtree that reads as the one that was copied, out of new inodes. It puts inodes
into the table that it reads from; what it reads stays as it was, since nothing is copied into itself,
and what it has made stays as it is, since every later copy goes elsewhere. The induction is on the
levels that are copied, and on each of them on the children. -/
namespace TreeShell.Volume

/-- What is seen of an inode that is met on a walk: its path, its kind and its content. -/
def shown (v : Volume) (found : Text × InodeId) : Text × Bool × Option Text :=
  (found.1, v.isDirectory found.2, v.content? found.2)

/-- An inode reads as another one in another volume: it is of the same kind and holds the same, and so
does all that is below it. -/
structure Resembles (v w : Volume) (x y : InodeId) : Prop where
  isDirectory : w.isDirectory y = v.isDirectory x
  content? : w.content? y = v.content? x
  walkWithin : ∀ bound lead,
    (w.walkWithin bound lead y).map w.shown = (v.walkWithin bound lead x).map v.shown

/-- What a walk shows depends on the inodes that it meets only. -/
theorem shown_walkWithin_congr {v w : Volume} {id : InodeId}
    (hSame : ∀ steps x, Leads v id steps x → w.get? x = v.get? x) (bound : Nat) (lead : Text) :
    (w.walkWithin bound lead id).map w.shown = (v.walkWithin bound lead id).map v.shown := by
  rw [walkWithin_congr (fun steps x hLeads => entries_congr (hSame steps x hLeads))
    fun steps x hLeads => nameOf_congr (hSame (steps + 1) x hLeads)]
  refine List.map_congr_left fun found hFound => ?_
  obtain ⟨steps, hLeads⟩ := leads_of_mem_walkWithin hFound
  rw [shown, shown, isDirectory_congr (hSame _ _ hLeads), content?_congr (hSame _ _ hLeads)]

/-- What is copied may have been read earlier. -/
theorem Resembles.source {u v w : Volume} {x y : InodeId} (h : Resembles v w x y)
    (hSame : ∀ steps z, Leads u x steps z → v.get? z = u.get? z) : Resembles u w x y where
  isDirectory := h.isDirectory.trans (isDirectory_congr (hSame 0 x .here))
  content? := h.content?.trans (content?_congr (hSame 0 x .here))
  walkWithin bound lead := (h.walkWithin bound lead).trans (shown_walkWithin_congr hSame bound lead)

/-- What has been made may be read later. -/
theorem Resembles.target {u v w : Volume} {x y : InodeId} (h : Resembles u v x y)
    (hSame : ∀ steps z, Leads v y steps z → w.get? z = v.get? z) : Resembles u w x y where
  isDirectory := (isDirectory_congr (hSame 0 y .here)).trans h.isDirectory
  content? := (content?_congr (hSame 0 y .here)).trans h.content?
  walkWithin bound lead := (shown_walkWithin_congr hSame bound lead).trans (h.walkWithin bound lead)

/-- Inodes read the same when their children do, one by one. -/
theorem resembles_of_entries {v w : Volume} {x y : InodeId}
    (hKind : w.isDirectory y = v.isDirectory x) (hContent : w.content? y = v.content? x)
    (hEntries : List.Forall₂
      (fun child entry => w.nameOf entry.2 = v.nameOf child.2 ∧ Resembles v w child.2 entry.2)
      (v.entries x) (w.entries y)) : Resembles v w x y := by
  refine ⟨hKind, hContent, fun bound lead => ?_⟩
  cases bound with
  | zero => rfl
  | succ bound =>
      rw [Volume.walkWithin, Volume.walkWithin]
      generalize v.entries x = children at hEntries ⊢
      generalize w.entries y = entries at hEntries ⊢
      induction hEntries with
      | nil => rfl
      | cons hFirst _ ih =>
          obtain ⟨hName, hSame⟩ := hFirst
          simp only [List.flatMap_cons, List.map_append, ih, List.map_cons, hName, hSame.walkWithin]
          rw [shown, hSame.isDirectory, hSame.content?]
          rfl

/-- An inode is copied into a directory under a name, and only the copy is new. -/
structure Cloned (v w : Volume) (now : Instant) (source directory : InodeId) (name : Text)
    (made : InodeId) : Prop where
  extended : Extended v w now directory name made
  resembles : Resembles v w source made

/-- Copies of children have been entered into a directory, under the names of the children. -/
structure Filled (v w : Volume) (made : InodeId) (names : InodeId → Text)
    (children added : List (Text × InodeId)) : Prop where
  enlarged : Enlarged v w made
  entries : w.entries made = v.entries made ++ added
  resembles : List.Forall₂
    (fun child entry => entry.1 = names child.2 ∧ Resembles v w child.2 entry.2) children added

/-- Copying down to this bound makes a copy of whatever can be copied so far down. -/
def Clones (now : Instant) (bound : Nat) : Prop :=
  ∀ ⦃v : Volume⦄ ⦃source directory : InodeId⦄ ⦃name : Text⦄, Forest [] v →
    v.isDirectory directory = true → name ∉ (v.entries directory).map Prod.fst →
    Copyable v bound source directory →
      Cloned v (copyInto now bound v source directory name).2 now source directory name
        (copyInto now bound v source directory name).1

/-- Children are copied one after the other. Those that are still to be copied are not changed by a
copy, and a copy is not changed by those that are made after it. -/
theorem Clones.each {now : Instant} {bound : Nat} (hOne : Clones now bound) (names : InodeId → Text)
    {made : InodeId} (children : List (Text × InodeId)) {v : Volume} (hv : Forest [] v)
    (hMade : v.isDirectory made = true) (hCopyable : ∀ child ∈ children, Copyable v bound child.2 made)
    (hNames : ((v.entries made).map Prod.fst ++ children.map fun child => names child.2).Nodup) :
    ∃ added, Filled v
      (children.foldl (fun w (_, child) => (copyInto now bound w child made (names child)).2) v)
      made names children added := by
  induction children generalizing v with
  | nil => exact ⟨[], .refl hv hMade, (List.append_nil _).symm, .nil⟩
  | cons child children ih =>
      obtain ⟨_, child⟩ := child
      have hFree : names child ∉ (v.entries made).map Prod.fst := by
        intro hMem
        exact List.disjoint_of_nodup_append hNames hMem (by simp)
      have hHere := hCopyable _ (List.mem_cons_self ..)
      have hLater : ∀ other ∈ children, Copyable v bound other.2 made :=
        fun other hOther => hCopyable other (List.mem_cons_of_mem _ hOther)
      obtain ⟨hExtended, hResembles⟩ := hOne hv hMade hFree hHere
      have hMore := hExtended.enlarged hMade
      have hEntries := hExtended.entries hMade (holds_of_isDirectory hMade).lt
      rw [if_pos rfl] at hEntries
      obtain ⟨added, hRest⟩ := ih hMore.forest hMore.isDirectory
        (fun other hOther => (hLater other hOther).grown hv (hMore.grown hMade))
        (by rw [hEntries]; simpa using hNames)
      rw [List.foldl_cons]
      refine ⟨(names child, (copyInto now bound v child made (names child)).1) :: added, hMore.trans hRest.enlarged, ?_, .cons ⟨rfl, hResembles.target ?_⟩ ?_⟩
      · rw [hRest.entries, hEntries, List.append_assoc, List.singleton_append]
      · exact fun _ _ hLeads => hRest.enlarged.get?_of_leads hMore.forest (hExtended.holds hMade)
          (hExtended.not_leads hMade) hLeads
      · refine forall₂_of_mem hRest.resembles fun other hOther entry _ hBoth => ?_
        have hStill := hLater other hOther
        exact ⟨hBoth.1, hBoth.2.source fun _ _ hLeads =>
          hMore.get?_of_leads hv hStill.held hStill.apart hLeads⟩

section Cloned

variable {v : Volume} (hv : Forest [] v) {source directory : InodeId} {name : Text}
  (hDirectory : v.isDirectory directory = true) (hFree : name ∉ (v.entries directory).map Prod.fst)
include hv hDirectory

include hFree in
/-- For a file the clone is one new inode with the same content. -/
theorem Forest.cloned_file (now : Instant) {content : Text} (hContent : v.content? source = some content) :
    Cloned v (v.add now directory name (.file content)).2 now source directory name
      (v.add now directory name (.file content)).1 := by
  have hMade := hv.extended now hDirectory hFree
    (show (Inode.mk name (some directory) now now (.file content)).entries = [] from rfl)
  have hSame := content?_add now (holds_of_isDirectory hDirectory) name content
  have hKind := isDirectory_of_content?_eq_some hContent
  have hNew := isDirectory_of_content?_eq_some hSame
  refine ⟨hMade, resembles_of_entries (hNew.trans hKind.symm) (hSame.trans hContent.symm) ?_⟩
  rw [entries_of_file hKind, entries_of_file hNew]
  exact .nil

/-- A new directory that is filled with copies of the children of another one is a copy of that one. -/
theorem Filled.cloned {start w : Volume} {now : Instant} {made : InodeId}
    {added : List (Text × InodeId)} (h : Filled start w made v.nameOf (v.entries source) added)
    (hStart : Extended v start now directory name made) (hBare : start.entries made = [])
    (hKind : v.isDirectory source = true) (hApart : ∀ steps, ¬ Leads v source steps directory) :
    Cloned v w now source directory name made := by
  have hEntries := h.entries
  rw [hBare, List.nil_append] at hEntries
  refine ⟨hStart.filled hDirectory h.enlarged, resembles_of_entries ?_ ?_ ?_⟩
  · rw [hKind, h.enlarged.isDirectory]
  · rw [content?_eq_none hKind, content?_eq_none h.enlarged.isDirectory]
  · rw [hEntries]
    refine forall₂_of_mem h.resembles fun child hChild entry hEntry hBoth => ?_
    obtain ⟨hName, hSame⟩ := hBoth
    rw [← hEntries] at hEntry
    refine ⟨(h.enlarged.forest.entry _ _ _ hEntry).2.2.1.trans hName, hSame.source ?_⟩
    -- The child was read after its copy's directory had been made, which is outside of it.
    have hFirst : Leads v source 1 child.2 := Leads.here.down hChild
    exact fun _ _ hLeads => (hStart.enlarged hDirectory).get?_of_leads hv (hv.entry _ _ _ hChild).2.1
      (fun count hUp => hApart _ (hFirst.trans hUp)) hLeads

end Cloned

/-- The induction is on the levels that are copied. -/
theorem clones (now : Instant) (bound : Nat) : Clones now bound := by
  induction bound with
  | zero => exact fun _ _ _ _ _ _ _ hCopyable => absurd (hCopyable.shallow 0 _ .here) (Nat.lt_irrefl 0)
  | succ bound ih =>
      intro v source directory name hv hDirectory hFree hCopyable
      rw [copyInto]
      split
      · rename_i content hContent
        exact hv.cloned_file hDirectory hFree now hContent
      · rename_i hContent
        have hBody : (Inode.mk name (some directory) now now (.directory [])).entries = [] := rfl
        have hAdded := hv.add now hDirectory hFree hBody
        obtain ⟨added, hFilled⟩ := ih.each v.nameOf (v.entries source) hAdded.forest hAdded.isDirectory
          (fun child hChild => hCopyable.child hv hAdded hChild)
          (by rw [hAdded.bare, hv.childNames]; exact hv.namesNodup source)
        exact hFilled.cloned hv hDirectory (hv.extended now hDirectory hFree hBody) hAdded.bare
          (isDirectory_of_content?_eq_none hCopyable.held hContent) hCopyable.apart

/-- A walk that goes all the way down is the same however far it may go. -/
theorem Shallow.walkWithin_eq {v : Volume} {bound limit : Nat} {id : InodeId}
    (hBound : Shallow v bound id) (hLimit : Shallow v limit id) (lead : Text) :
    v.walkWithin bound lead id = v.walkWithin limit lead id := by
  induction bound generalizing limit lead id with
  | zero => exact absurd (hBound 0 id .here) (Nat.lt_irrefl 0)
  | succ bound ih =>
      obtain ⟨limit, rfl⟩ := hLimit.pos
      rw [walkWithin, walkWithin]
      refine List.flatMap_congr fun entry hEntry => ?_
      simp only [ih (hBound.child hEntry) (hLimit.child hEntry)]

/-- Whole walks of inodes that resemble each other show the same. -/
theorem Resembles.walk {v w : Volume} {x y : InodeId} (h : Resembles v w x y) (hv : Forest [] v)
    (hSize : v.slots.size ≤ w.slots.size) (hx : v.Holds x) :
    (w.walk y).map w.shown = (v.walk x).map v.shown := by
  have hDeeper : Shallow v w.slots.size x := fun steps z hLeads =>
    Nat.lt_of_lt_of_le (hv.steps_lt hx hLeads) hSize
  rw [Volume.walk, Volume.walk, h.walkWithin, hDeeper.walkWithin_eq (hv.shallow hx)]

/-- What copying to a free place does: the copy reads as what was copied did, all of it is new, and
nothing else has changed but the directory that it is in. -/
structure Copied (v w : Volume) (now : Instant) (node directory : InodeId) (name : Text)
    (made : InodeId) : Prop where
  isDirectory : w.isDirectory made = v.isDirectory node
  content? : w.content? made = v.content? node
  walk : (w.walk made).map w.shown = (v.walk node).map v.shown
  fresh : ∀ x, w.isAncestor made x = true → v.slots.size ≤ x
  holds : ∀ x, w.Holds x ↔ v.Holds x ∨ w.isAncestor made x = true
  inodes : ∀ x, v.Holds x → x ≠ directory → w.get? x = v.get? x
  listed : w.get? directory = (v.get? directory).map fun up =>
    { up with modified := now, body := .directory (up.entries ++ [(name, made)]) }
  cwd : w.cwd = v.cwd
  independent : Independent w node made

/-- What copying a file over another one does. -/
structure Overwritten (v w : Volume) (now : Instant) (node existing : InodeId) : Prop where
  replaced : ∃ content, v.content? node = some content ∧ v.isFile existing = true ∧
    w.get? existing = (v.get? existing).map fun inode =>
      { inode with modified := now, body := .file content }
  inodes : ∀ x, x ≠ existing → w.get? x = v.get? x
  cwd : w.cwd = v.cwd
  size : w.slots.size = v.slots.size
  independent : node ≠ existing → Independent w node existing

section Copying

variable {v w : Volume} (h : Sound v) {now : Instant} {node directory made : InodeId} {name : Text}
  (hNode : v.Holds node) (hDirectory : v.isDirectory directory = true)
  (hApart : ∀ steps, ¬ Leads v node steps directory) (hw : Cloned v w now node directory name made)
include h hNode hDirectory hApart hw

/-- What is below the source was there before, and what is below the copy was not. -/
theorem Sound.apart_of_cloned : Apart w node made := by
  have hMore := hw.extended.enlarged hDirectory
  refine ⟨(hMore.holds_of_holds hNode).lt, (hw.extended.holds hDirectory).lt, ?_⟩
  rintro id ⟨steps, hLeads⟩ ⟨count, hNew⟩
  have hBefore := (hMore.grown hDirectory).leads_of_grown h.forest hNode hApart hLeads
  have hOld := (h.forest.holds_of_leads hNode hBefore).lt
  exact absurd (hw.extended.size_le_of_leads hNew) (Nat.not_le_of_lt hOld)

/-- A clone in a directory outside of the source is a copy of it: the source is as it was, and the
two have nothing in common. -/
theorem Sound.copied : Copied v w now node directory name made := by
  have hMore := hw.extended.enlarged hDirectory
  have hForest := hw.extended.forest
  have hMade := hw.extended.holds hDirectory
  refine ⟨hw.resembles.isDirectory, hw.resembles.content?,
    hw.resembles.walk h.forest hMore.size hNode, fun x hx => ?_, fun x => ?_,
    fun x hx hOther => hMore.inodes x hx.lt hOther, hw.extended.listed, hMore.cwd, ?_⟩
  · obtain ⟨steps, hLeads⟩ := (hForest.isAncestor_iff hMade).mp hx
    exact hw.extended.size_le_of_leads hLeads
  · rw [hw.extended.holds_iff h.forest hDirectory, hForest.isAncestor_iff hMade]
  · have hSound := h.grown hForest (hMore.grown hDirectory)
    exact hSound.independent (h.apart_of_cloned hNode hDirectory hApart hw)

end Copying

/-- Copying one file over another sets the content of the second one and nothing else. -/
theorem Sound.overwritten_of_file {v : Volume} (h : Sound v) (now : Instant) {node existing : InodeId}
    {content old : Text} (hContent : v.content? node = some content)
    (hOld : v.content? existing = some old) :
    Overwritten v (v.setContent now existing content) now node existing := by
  have hGet := get?_update v existing fun inode =>
    { inode with modified := now, body := .file content }
  have hShape := sameShape_setContent now hOld content
  refine ⟨⟨content, hContent, by rw [isFile, hOld, Option.isSome_some], ?_⟩, fun x hx => ?_, hShape.cwd,
    hShape.size, fun hNe => ?_⟩
  · exact (hGet existing).trans (if_pos rfl)
  · exact (hGet x).trans (if_neg hx)
  · have hForest := h.forest.sameShape hShape
    have hHolds : ∀ {x text}, v.content? x = some text → (v.setContent now existing content).Holds x :=
      fun hText => (hShape.holds _).mpr (holds_of_content? hText)
    have hFile : ∀ {x text}, v.content? x = some text →
        (v.setContent now existing content).isDirectory x = false :=
      fun hText => (hShape.isDirectory _).trans (isDirectory_of_content?_eq_some hText)
    refine (h.sameShape hShape).independent (hForest.apart (hHolds hContent) (hHolds hOld) ?_ ?_)
    · rintro ⟨_, hLeads⟩
      exact hNe (hLeads.eq_of_file (hFile hContent)).symm
    · rintro ⟨_, hLeads⟩
      exact hNe (hLeads.eq_of_file (hFile hOld))

/-- Copying makes an equal subtree that is independent of the one that was copied. -/
theorem copied_of_copy {v w : Volume} (h : Reachable v) {now : Instant} {source target : Text}
    {recursive : Bool} {made : InodeId} (hw : v.copy now source target recursive = .ok (made, w)) :
    ∃ node directory name, v.lookup source = .ok node ∧
      v.destination node target = .ok (directory, name) ∧
      (v.child? directory name = none ∧ Copied v w now node directory name made ∨
        v.child? directory name = some made ∧ Overwritten v w now node made) := by
  have hSound := h.sound
  simp only [Volume.copy, check_eq_ok, bind_eq_ok] at hw
  obtain ⟨node, hFound, _, ⟨directory, name⟩, hPlace, hOutside, hRest⟩ := hw
  have hHeld := hSound.holds_lookup hFound
  have hDirectory := isDirectory_of_destination hPlace
  refine ⟨node, directory, name, hFound, hPlace, ?_⟩
  split at hRest
  · rename_i existing hChild
    split at hRest
    · rename_i content old hContent hOld
      cases hRest
      exact Or.inr ⟨hChild, hSound.overwritten_of_file now hContent hOld⟩
    · cases hRest
  · rename_i hChild
    have hApart := hSound.forest.apart_of_outside hHeld hDirectory hOutside
    have hCloned := clones now v.slots.size hSound.forest hDirectory (child?_eq_none_iff.mp hChild)
      ⟨hHeld, hSound.forest.shallow hHeld, hApart⟩
    rw [Except.ok.inj hRest] at hCloned
    exact Or.inl ⟨hChild, hSound.copied hHeld hDirectory hApart hCloned⟩

/-- A directory is copied beside itself, and then a part of it is removed; and a file is copied over
another one. -/
theorem copied_of_copy_beside :
    let now := Instant.origin
    let v := (fresh now).after [(now, .createDirectories "/a/b/c"), (now, .createFile "/a/b/f" "x"),
      (now, .createFile "/g" "y"), (now, .changeDirectory "/a/b")]
    (∃ w, v.copy now "../b" "../d" true = .ok (6, w) ∧ Copied v w now 2 1 "d" 6 ∧
      w.listing = ([("/a", none), ("/a/b", none), ("/a/b/c", none),
        ("/a/b/f", some "x"), ("/a/d", none), ("/a/d/c", none),
        ("/a/d/f", some "x"), ("/g", some "y")] : List (Text × Option Text)) ∧
      MadeBelow w 2 (.remove "c" false) ∧ Untouched w (w.perform now (.remove "c" false)).2 6) ∧
    ∃ w, v.copy now "f" "/g" false = .ok (5, w) ∧ Overwritten v w now 4 5 ∧
      w.listing = ([("/a", none), ("/a/b", none), ("/a/b/c", none),
        ("/a/b/f", some "x"), ("/g", some "x")] : List (Text × Option Text)) := by
  intro now v
  have hReachable : Reachable v := reachable_after now _
  constructor
  · obtain ⟨_, hPlace, rfl⟩ := exists_ok_of_map_toOption
      (show (v.destination 2 "../d").toOption.map id = some (1, ("d" : Text)) by decide +kernel)
    obtain ⟨⟨made, w⟩, hw, hSeen⟩ := exists_ok_of_map_toOption
      (show (v.copy now "../b" "../d" true).toOption.map (fun found => (found.1, found.2.listing)) =
        some (6, ([("/a", none), ("/a/b", none), ("/a/b/c", none),
          ("/a/b/f", some "x"), ("/a/d", none), ("/a/d/c", none),
          ("/a/d/f", some "x"), ("/g", some "y")] : List (Text × Option Text))) by decide +kernel)
    obtain ⟨rfl, hListing⟩ := Prod.mk.inj hSeen
    obtain ⟨_, hAgain, hInner⟩ := exists_ok_of_map_toOption
      (show (v.copy now "../b" "../d" true).toOption.map
        (fun found => (found.2.resolve? "c", found.2.child? 2 "c")) = some (some 3, some 3)
        by decide +kernel)
    obtain rfl := Except.ok.inj (hAgain.symm.trans hw)
    obtain ⟨hPath, hChild⟩ := Prod.mk.inj hInner
    obtain ⟨node, directory, name, hNode, hFound, hCopied⟩ := copied_of_copy hReachable hw
    obtain rfl : (2 : InodeId) = node :=
      Except.ok.inj ((resolveFrom?_eq_some.mp (by decide +kernel)).symm.trans hNode)
    obtain ⟨rfl, rfl⟩ := Prod.mk.inj (Except.ok.inj (hPlace.symm.trans hFound))
    have hCopy : Copied v w now 2 1 "d" 6 := by
      refine (hCopied.resolve_right fun hOver => ?_).2
      exact absurd hOver.1 (by decide +kernel)
    have hMade : MadeBelow w 2 (.remove "c" false) := by
      refine .remove fun id hId => ?_
      obtain rfl : (3 : InodeId) = id :=
        Except.ok.inj ((resolveFrom?_eq_some.mp hPath).symm.trans hId)
      exact ⟨1, Leads.here.down (mem_entries_of_child? hChild)⟩
    exact ⟨w, hw, hCopy, hListing, hMade, (hCopy.independent w .start now _).1 hMade⟩
  · obtain ⟨_, hPlace, rfl⟩ := exists_ok_of_map_toOption
      (show (v.destination 4 "/g").toOption.map id = some (0, ("g" : Text)) by decide +kernel)
    obtain ⟨⟨made, w⟩, hw, hSeen⟩ := exists_ok_of_map_toOption
      (show (v.copy now "f" "/g" false).toOption.map (fun found => (found.1, found.2.listing)) =
        some (5, ([("/a", none), ("/a/b", none), ("/a/b/c", none),
          ("/a/b/f", some "x"), ("/g", some "x")] : List (Text × Option Text))) by decide +kernel)
    obtain ⟨rfl, hListing⟩ := Prod.mk.inj hSeen
    obtain ⟨node, directory, name, hNode, hFound, hCopied⟩ := copied_of_copy hReachable hw
    obtain rfl : (4 : InodeId) = node :=
      Except.ok.inj ((resolveFrom?_eq_some.mp (by decide +kernel)).symm.trans hNode)
    obtain ⟨rfl, rfl⟩ := Prod.mk.inj (Except.ok.inj (hPlace.symm.trans hFound))
    refine ⟨w, hw, (hCopied.resolve_left fun hFree => ?_).2, hListing⟩
    exact absurd hFree.1 (by decide +kernel)

end TreeShell.Volume
