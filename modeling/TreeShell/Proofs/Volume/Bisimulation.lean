import TreeShell.Proofs.Volume.Alike
import TreeShell.Proofs.Volume.History

/-! Operations cannot tell apart volumes that differ in numbers only. What goes down or up a
whole tree is bounded by the size of the table, and the tables of two such volumes may differ
in size; so these walks are compared at any two bounds that are larger than the tree is high. -/
namespace TreeShell.Volume

theorem forall₂_of_mem {α β : Type} {r s : α → β → Prop} {left : List α} {right : List β}
    (h : List.Forall₂ r left right) (hNext : ∀ a ∈ left, ∀ b ∈ right, r a b → s a b) :
    List.Forall₂ s left right := by
  rw [List.forall₂_iff_zip] at h ⊢
  refine ⟨h.1, fun {a b} hMem => ?_⟩
  exact hNext a (List.of_mem_zip hMem).1 b (List.of_mem_zip hMem).2 (h.2 hMem)

section Ways

variable {r : Pairing}

/-- Standing for each other goes both ways, with the relation turned around. -/
theorem SameNode.symm {left right : Inode} (h : SameNode r left right) :
    SameNode (flip r) right left := by
  obtain ⟨_, up, _, _, left⟩ := left
  obtain ⟨_, other, _, _, right⟩ := right
  have hParent : Option.Rel r up other := h.parent
  have hBody : SameBody r left right := h.body
  refine ⟨h.name.symm, ?_, h.created.symm, h.modified.symm, ?_⟩
  · cases hParent with
    | none => exact .none
    | some hUp => exact .some hUp
  · cases hBody with
    | file content => exact .file content
    | directory listed =>
        exact .directory (List.Forall₂.flip (listed.imp fun _ _ hEntry => ⟨hEntry.1.symm, hEntry.2⟩))

/-- Being alike goes both ways. -/
theorem Alike.symm {v w : Volume} (h : Alike r v w) : Alike (flip r) w v := by
  refine ⟨⟨fun _ _ _ ha hb => h.unique.2 ha hb, fun _ _ _ ha hb => h.unique.1 ha hb⟩,
    fun hr => (h.bounded hr).symm, h.root, h.cwd, fun {y x} hr => ?_⟩
  obtain ⟨hx, hy⟩ | ⟨_, _, hx, hy, hNode⟩ := rel_cases (h.node hr)
  · rw [hx, hy]
    exact .none
  · rw [hx, hy]
    exact .some hNode.symm

/-- A child on one side has its partner among the children on the other. -/
theorem exists_partner {left right : List (Text × InodeId)} {name : Text} {a : InodeId}
    (h : List.Forall₂ (SameEntry r) left right) (hMem : (name, a) ∈ left) :
    ∃ b, (name, b) ∈ right ∧ r a b := by
  induction h with
  | nil => cases hMem
  | @cons first second left right hEntry _ ih =>
      rcases List.mem_cons.mp hMem with rfl | hMem
      · obtain ⟨hName, hPair⟩ := hEntry
        exact ⟨second.2, by rw [show name = second.1 from hName]; exact List.mem_cons_self .., hPair⟩
      · obtain ⟨b, hb, hPair⟩ := ih hMem
        exact ⟨b, List.mem_cons_of_mem _ hb, hPair⟩

/-- A way down on one side is a way down on the other, by as many steps. -/
theorem Alike.leads {v w : Volume} (h : Alike r v w) {x y a : InodeId} {steps : Nat}
    (hPair : r x y) (hLeads : Leads v x steps a) : ∃ b, r a b ∧ Leads w y steps b := by
  induction hLeads with
  | here => exact ⟨y, hPair, .here⟩
  | down _ listed ih =>
      obtain ⟨e, hUp, hPrior⟩ := ih
      obtain ⟨b, hb, hDown⟩ := exists_partner (h.entries_rel hUp) listed
      exact ⟨b, hDown, hPrior.down hb⟩

theorem Alike.leads_iff {v w : Volume} (h : Alike r v w) {x y a b : InodeId} {steps : Nat}
    (hPair : r x y) (hOther : r a b) : Leads v x steps a ↔ Leads w y steps b := by
  constructor
  · intro hLeads
    obtain ⟨c, hc, hPartner⟩ := h.leads hPair hLeads
    rwa [h.unique.2 hOther hc]
  · intro hLeads
    obtain ⟨c, hc, hPartner⟩ := h.symm.leads hPair hLeads
    rwa [h.unique.1 hOther hc]

/-- Of two inodes that stand for each other, both are held or neither. -/
theorem Alike.holds_iff {v w : Volume} (h : Alike r v w) {x y : InodeId} (hPair : r x y) :
    v.Holds x ↔ w.Holds y := by
  rw [Holds, Holds]
  obtain ⟨hx, hy⟩ | ⟨_, _, hx, hy, _⟩ := rel_cases (h.node hPair)
  · rw [hx, hy]
  · rw [hx, hy]
    exact Iff.rfl

end Ways

section Trees

variable {r : Pairing} {v w : Volume} (h : Alike r v w) (hv : Sound v) (hw : Sound w)
include h hv hw

theorem Alike.isAncestor_eq {x y a b : InodeId} (hPair : r x y) (hOther : r a b)
    (hHeld : v.Holds x) : v.isAncestor x a = w.isAncestor y b := by
  rw [Bool.eq_iff_iff, hv.forest.isAncestor_iff hHeld,
    hw.forest.isAncestor_iff ((h.holds_iff hPair).mp hHeld)]
  exact exists_congr fun _ => h.leads_iff hPair hOther

theorem Alike.mem_subtree_iff {x y a b : InodeId} (hPair : r x y) (hOther : r a b)
    (hHeld : v.Holds x) : a ∈ v.subtree x ↔ b ∈ w.subtree y := by
  rw [hv.forest.mem_subtree hHeld, hw.forest.mem_subtree ((h.holds_iff hPair).mp hHeld)]
  exact exists_congr fun _ => h.leads_iff hPair hOther

omit hv hw in
/-- Going upwards by the same number of steps meets the same names. -/
theorem Alike.namesUp_eq (bound : Nat) {x y : InodeId} (hPair : r x y) :
    v.namesUp bound x = w.namesUp bound y := by
  induction bound generalizing x y with
  | zero => rfl
  | succ bound ih =>
      rw [namesUp, namesUp]
      obtain ⟨hx, hy⟩ | ⟨left, right, hx, hy, hNode⟩ := rel_cases (h.node hPair)
      · rw [hx, hy]
      · rw [hx, hy]
        obtain ⟨name, parent, _, _, _⟩ := left
        obtain ⟨_, other, _, _, _⟩ := right
        obtain rfl : name = _ := hNode.name
        have hParent : Option.Rel r parent other := hNode.parent
        cases hParent with
        | none => rfl
        | some hUp => exact congrArg (name :: ·) (ih hUp)

/-- Paired inodes have the same path. -/
theorem Alike.pathOf_eq {x y : InodeId} (hPair : r x y) (hHeld : v.Holds x) :
    v.pathOf x = w.pathOf y := by
  obtain ⟨left, hx⟩ := Volume.holds_iff.mp hHeld
  obtain ⟨right, hy⟩ := Volume.holds_iff.mp ((h.holds_iff hPair).mp hHeld)
  have hLeft := (hv.wellFormed.walksEnd x left hx _ (Nat.le_max_left v.slots.size w.slots.size)).1
  have hRight := (hw.wellFormed.walksEnd y right hy _ (Nat.le_max_right v.slots.size w.slots.size)).1
  rw [pathOf, pathOf, ← hLeft, ← hRight, h.namesUp_eq _ hPair]

end Trees

section Walks

variable {r : Pairing} {v w : Volume} (h : Alike r v w)
include h

/-- Walks list entries that stand for each other, although their bounds differ: both are beyond what
lies below. -/
theorem Alike.walkWithin {bound limit : Nat} {x y : InodeId} (hPair : r x y)
    (hx : Shallow v bound x) (hy : Shallow w limit y) (lead : Text) :
    List.Forall₂ (SameEntry r) (v.walkWithin bound lead x) (w.walkWithin limit lead y) := by
  induction bound generalizing limit x y lead with
  | zero => exact absurd (hx 0 x .here) (Nat.lt_irrefl 0)
  | succ bound ih =>
      obtain ⟨limit, rfl⟩ := hy.pos
      rw [Volume.walkWithin, Volume.walkWithin]
      refine List.rel_flatMap (forall₂_of_mem (h.entries_rel hPair) ?_) fun _ _ hBelow => hBelow
      rintro ⟨name, a⟩ ha ⟨other, b⟩ hb ⟨_, hBelow⟩
      simp only [h.nameOf_eq hBelow]
      exact .cons ⟨rfl, hBelow⟩ (ih hBelow (hx.child ha) (hy.child hb) _)

/-- Inodes that stand for each other are written down alike, also when the volumes number them
differently. -/
theorem Alike.ofWithin_eq {bound limit : Nat} {x y : InodeId} (hPair : r x y)
    (hx : Shallow v bound x) (hy : Shallow w limit y) :
    Snapshot.ofWithin v bound x = Snapshot.ofWithin w limit y := by
  induction bound generalizing limit x y with
  | zero => exact absurd (hx 0 x .here) (Nat.lt_irrefl 0)
  | succ bound ih =>
      obtain ⟨limit, rfl⟩ := hy.pos
      have hChildren : (v.entries x).map (fun entry => Snapshot.ofWithin v bound entry.2) =
          (w.entries y).map (fun entry => Snapshot.ofWithin w limit entry.2) := by
        refine map_eq_of_forall₂ (forall₂_of_mem (h.entries_rel hPair) ?_)
        rintro ⟨name, a⟩ ha ⟨other, b⟩ hb ⟨_, hBelow⟩
        exact ih hBelow (hx.child ha) (hy.child hb)
      rw [Snapshot.ofWithin, Snapshot.ofWithin]
      rw [entries, entries] at hChildren
      obtain ⟨hx, hy⟩ | ⟨left, right, hx, hy, hNode⟩ := rel_cases (h.node hPair)
      · rw [hx, hy]
      · simp only [hx, hy] at hChildren ⊢
        simp only [hNode.isDirectory, hNode.name, hNode.created, hNode.modified, hNode.content?,
          hChildren]

/-- Snapshots of volumes that are alike are the same. -/
theorem Alike.ofInode_eq (hv : Sound v) (hw : Sound w) {x y : InodeId} (hPair : r x y)
    (hHeld : v.Holds x) : Snapshot.ofInode v x = Snapshot.ofInode w y :=
  h.ofWithin_eq hPair (hv.forest.shallow hHeld)
    (hw.forest.shallow ((h.holds_iff hPair).mp hHeld))

end Walks

section Relocating

variable {r : Pairing} {v w : Volume} (h : Alike r v w) (hv : Sound v)
include h hv

theorem Alike.lookupHeld (path : Text) :
    EndsAlike (fun x y => r x y ∧ v.Holds x) (v.lookup path) (w.lookup path) :=
  (h.lookup path).andLeft fun _ hFound => hv.holds_lookup hFound

variable (hw : Sound w) (now : Instant)
include hw

theorem Alike.removed {x y : InodeId} (hPair : r x y) (hHeld : v.Holds x) :
    Alike r ((v.unlink now x).discard (v.subtree x)) ((w.unlink now y).discard (w.subtree y)) :=
  (h.unlink now hPair).discard fun _ _ hOther => h.mem_subtree_iff hv hw hPair hOther hHeld

/-- A removal is refused alike, and cuts off subtrees that stand for each other. -/
theorem Alike.remove (path : Text) (recursive : Bool) :
    EndsAlike (Alike r) (v.remove now path recursive) (w.remove now path recursive) := by
  rw [Volume.remove, Volume.remove]
  refine (h.lookupHeld hv path).bind fun x y hBoth => ?_
  obtain ⟨hPair, hHeld⟩ := hBoth
  refine EndsAlike.check ?_ fun _ => ?_
  · rw [h.beq_eq hPair h.root]
  refine EndsAlike.check ?_ fun _ => .result ?_
  · have hEmpty : (v.entries x).isEmpty = (w.entries y).isEmpty := by
      rw [← List.isEmpty_map, h.names_eq hPair, List.isEmpty_map]
    rw [hEmpty]
  · refine (h.removed hv hw now hPair hHeld).withCwd ?_
    rw [h.isAncestor_eq hv hw hPair h.cwd hHeld]
    split
    · exact h.parent_getD hPair h.root
    · exact h.cwd

omit hv hw in
/-- The place that a target names is the same: a directory that is there takes the name of the
source. -/
theorem Alike.destination {x y : InodeId} (hPair : r x y) (target : Text) :
    EndsAlike (fun left right => r left.1 right.1 ∧ left.2 = right.2)
      (v.destination x target) (w.destination y target) := by
  rw [Volume.destination, Volume.destination]
  obtain ⟨ha, hb⟩ | ⟨a, b, ha, hb, hFound⟩ := rel_cases (h.resolve? target)
  · rw [ha, hb]
    exact h.placeFor target
  · rw [ha, hb]
    simp only [h.isDirectory_eq hFound]
    split
    · exact .result ⟨hFound, h.nameOf_eq hPair⟩
    · exact h.placeFor target

/-- A move answers alike: every check and every choice is made by what both volumes show. -/
theorem Alike.move (source target : Text) :
    EndsAlike (Matched r) (v.move now source target) (w.move now source target) := by
  rw [Volume.move, Volume.move]
  refine (h.lookupHeld hv source).bind fun x y hBoth => ?_
  obtain ⟨hPair, hHeld⟩ := hBoth
  refine EndsAlike.check ?_ fun _ => ?_
  · rw [h.beq_eq hPair h.root]
  refine (h.destination hPair target).bind fun place facing hPlace => ?_
  obtain ⟨d, name⟩ := place
  obtain ⟨e, other⟩ := facing
  obtain ⟨hDirectory, rfl⟩ : r d e ∧ name = other := hPlace
  refine EndsAlike.check ?_ fun _ => ?_
  · rw [h.isAncestor_eq hv hw hPair hDirectory hHeld]
  have hLast : ∀ cleared other : Volume, Alike r cleared other →
      Matched r (x, (cleared.unlink now x).link now d x name)
        (y, (other.unlink now y).link now e y name) :=
    fun _ _ hCleared => ((hCleared.unlink now hPair).link now hDirectory hPair name).matched hPair
  obtain ⟨ha, hb⟩ | ⟨a, b, ha, hb, hExisting⟩ := rel_cases (h.child?_rel hDirectory name)
  · rw [ha, hb]
    exact .result (hLast v w h)
  · rw [ha, hb]
    simp only [h.beq_eq hExisting hPair, h.isDirectory_eq hExisting, h.isDirectory_eq hPair]
    have hListed := mem_entries_of_child? ha
    split
    · exact .result (hLast v w h)
    · split
      · exact .fault _
      · split
        · exact .fault _
        · refine .result (hLast _ _ (h.removed hv hw now hExisting ?_))
          exact (hv.forest.entry _ _ _ hListed).2.1

end Relocating

/-- What is below an inode in a volume that has grown elsewhere was below it before. -/
theorem Grown.leads_of_grown {directory : InodeId} {loose : List InodeId} {v w : Volume}
    (hGrown : Grown directory v w) (hv : Forest loose v) {id x : InodeId} {steps : Nat}
    (hId : v.Holds id) (hApart : ∀ steps, ¬ Leads v id steps directory)
    (hLeads : Leads w id steps x) : Leads v id steps x := by
  induction hLeads with
  | here => exact .here
  | @down steps d x name _ listed ih =>
      have hOther : d ≠ directory := by
        rintro rfl
        exact hApart steps ih
      rw [hGrown.others d (hv.holds_of_leads hId ih) hOther] at listed
      exact ih.down listed

/-- What the check before a copy says of files as well: nothing is copied into itself. -/
theorem Forest.apart_of_outside {v : Volume} (h : Forest [] v) {id directory : InodeId}
    (hId : v.Holds id) (hDirectory : v.isDirectory directory = true)
    (hOutside : ¬ (v.isDirectory id && v.isAncestor id directory) = true) (steps : Nat) :
    ¬ Leads v id steps directory := by
  intro hLeads
  cases hKind : v.isDirectory id with
  | true =>
      rw [hKind, (h.isAncestor_iff hId).mpr ⟨steps, hLeads⟩] at hOutside
      exact hOutside rfl
  | false =>
      rw [hLeads.eq_of_file hKind, hKind] at hDirectory
      cases hDirectory

/-- An inode that can be copied down to its last level into a directory outside of it. -/
structure Copyable (v : Volume) (bound : Nat) (id directory : InodeId) : Prop where
  held : v.Holds id
  shallow : Shallow v bound id
  apart : ∀ steps, ¬ Leads v id steps directory

/-- What can be copied can still be copied after the directory has grown. -/
theorem Copyable.grown {directory : InodeId} {v w : Volume} {bound : Nat} {id : InodeId}
    (h : Copyable v bound id directory) (hv : Forest [] v) (hGrown : Grown directory v w) :
    Copyable w bound id directory where
  held := hGrown.holds id h.held
  shallow steps x hLeads := h.shallow steps x (hGrown.leads_of_grown hv h.held h.apart hLeads)
  apart steps hLeads := h.apart steps (hGrown.leads_of_grown hv h.held h.apart hLeads)

/-- The children of what is copied go into the new directory. -/
theorem Copyable.child {directory made : InodeId} {v w : Volume} {bound : Nat} {id child : InodeId}
    {name other : Text} {kind : Bool} (h : Copyable v (bound + 1) id directory) (hv : Forest [] v)
    (hAdded : Added [] v w directory made name kind) (hListed : (other, child) ∈ v.entries id) :
    Copyable w bound child made := by
  have hHeld := (hv.entry id other child hListed).2.1
  have hApart : ∀ steps, ¬ Leads v child steps directory := by
    intro steps hLeads
    have hFirst : Leads v id 1 child := Leads.here.down hListed
    exact h.apart _ (hFirst.trans hLeads)
  refine ⟨hAdded.grown.holds child hHeld, ?_, ?_⟩
  · intro steps x hLeads
    exact h.shallow.child hListed steps x (hAdded.grown.leads_of_grown hv hHeld hApart hLeads)
  · intro steps hLeads
    have hBefore := hAdded.grown.leads_of_grown hv hHeld hApart hLeads
    exact hAdded.fresh (hv.holds_of_leads hHeld hBefore)

/-- Two copies side by side: of paired inodes, into paired directories, under one new name. -/
structure Copying (r : Pairing) (v w : Volume) (bound limit : Nat) (x y d e : InodeId)
    (name : Text) : Prop where
  alike : Alike r v w
  left : Forest [] v
  right : Forest [] w
  source : r x y
  target : r d e
  isDirectory : v.isDirectory d = true
  fresh : name ∉ (v.entries d).map Prod.fst
  copyable : Copyable v bound x d
  partner : Copyable w limit y e

/-- Copies down to these bounds keep volumes alike. -/
def CopiesAlike (now : Instant) (bound limit : Nat) : Prop :=
  ∀ ⦃r : Pairing⦄ ⦃v w : Volume⦄ ⦃x y d e : InodeId⦄ ⦃name : Text⦄,
    Copying r v w bound limit x y d e name →
      Matched r (copyInto now bound v x d name) (copyInto now limit w y e name)

section Copying

variable {now : Instant} {bound limit : Nat} {r : Pairing} {v w : Volume}

theorem Copying.freshRight {x y d e : InodeId} {name : Text}
    (h : Copying r v w bound limit x y d e name) : name ∉ (w.entries e).map Prod.fst := by
  rw [← h.alike.names_eq h.target]
  exact h.fresh

theorem Copying.isDirectoryRight {x y d e : InodeId} {name : Text}
    (h : Copying r v w bound limit x y d e name) : w.isDirectory e = true := by
  rw [← h.alike.isDirectory_eq h.target]
  exact h.isDirectory

/-- Children are copied one after the other. The pairing grows with each of them, and those
that are still to be copied stay as they were. -/
theorem CopiesAlike.each (hOne : CopiesAlike now bound limit) (names others : InodeId → Text)
    {made other : InodeId} (children : List (Text × InodeId)) {partners : List (Text × InodeId)}
    (hPairs : List.Forall₂ (fun a b => r a.2 b.2 ∧ names a.2 = others b.2) children partners)
    (h : Alike r v w) (hv : Forest [] v) (hw : Forest [] w) (hMade : r made other)
    (hDirectory : v.isDirectory made = true)
    (hLeft : ∀ a ∈ children, Copyable v bound a.2 made)
    (hRight : ∀ b ∈ partners, Copyable w limit b.2 other)
    (hNames : ((v.entries made).map Prod.fst ++ children.map fun child => names child.2).Nodup) :
    ∃ s : Pairing, (∀ x y, r x y → s x y) ∧ Alike s
      (children.foldl (fun v (_, child) => (copyInto now bound v child made (names child)).2) v)
      (partners.foldl (fun w (_, child) => (copyInto now limit w child other (others child)).2) w) := by
  induction children generalizing r v w partners with
  | nil =>
      cases hPairs
      exact ⟨r, fun _ _ hr => hr, h⟩
  | cons child children ih =>
      obtain _ | ⟨hFirst, hRest⟩ := hPairs
      rename_i partner partners
      obtain ⟨_, x⟩ := child
      obtain ⟨_, y⟩ := partner
      obtain ⟨hPair, hName⟩ : r x y ∧ names x = others y := hFirst
      have hFree : names x ∉ (v.entries made).map Prod.fst := by
        intro hMem
        exact List.disjoint_of_nodup_append hNames hMem (by simp)
      have hCopying : Copying r v w bound limit x y made other (names x) :=
        ⟨h, hv, hw, hPair, hMade, hDirectory, hFree, hLeft _ (List.mem_cons_self ..),
          hRight _ (List.mem_cons_self ..)⟩
      have hMore := hv.copyInto now bound x hDirectory hFree
      have hOther := hw.copyInto now limit y hCopying.isDirectoryRight hCopying.freshRight
      obtain ⟨s, hs, _, hNext⟩ := hOne hCopying
      obtain ⟨t, ht, hLast⟩ := ih (hRest.imp fun a b hab => ⟨hs _ _ hab.1, hab.2⟩) hNext
        hMore.forest hOther.forest (hs _ _ hMade) (hMore.grown.isDirectory made hDirectory)
        (fun a ha => (hLeft a (List.mem_cons_of_mem _ ha)).grown hv hMore.grown)
        (fun b hb => (hRight b (List.mem_cons_of_mem _ hb)).grown hw hOther.grown)
        (by rw [hMore.names]; simpa using hNames)
      refine ⟨t, fun a b hab => ht a b (hs a b hab), ?_⟩
      simpa only [List.foldl_cons, ← hName] using hLast

/-- Copying keeps volumes alike. The induction is on the levels that are copied on the left. -/
theorem copiesAlike (now : Instant) (bound limit : Nat) : CopiesAlike now bound limit := by
  induction bound generalizing limit with
  | zero =>
      intro r v w x y d e name h
      exact absurd (h.copyable.shallow 0 x .here) (Nat.lt_irrefl 0)
  | succ bound ih =>
      intro r v w x y d e name h
      obtain ⟨limit, rfl⟩ := h.partner.shallow.pos
      rw [copyInto, copyInto, h.alike.content?_eq h.source]
      split
      · rename_i content _
        exact h.alike.add now h.target name (.file content)
      · have hAdded := h.left.add now h.isDirectory h.fresh
          (show (Inode.mk name (some d) now now (.directory [])).entries = [] from rfl)
        have hOther := h.right.add now h.isDirectoryRight h.freshRight
          (show (Inode.mk name (some e) now now (.directory [])).entries = [] from rfl)
        obtain ⟨s, hs, hMade, hStart⟩ := h.alike.add now h.target name (.directory .nil)
        obtain ⟨t, ht, hLast⟩ := (ih limit).each v.nameOf w.nameOf (v.entries x)
          ((h.alike.entries_rel h.source).imp fun a b hab =>
            ⟨hs _ _ hab.2, h.alike.nameOf_eq hab.2⟩)
          hStart hAdded.forest hOther.forest hMade hAdded.isDirectory
          (fun a ha => h.copyable.child h.left hAdded ha)
          (fun b hb => h.partner.child h.right hOther hb)
          (by rw [hAdded.bare, h.left.childNames]; exact h.left.namesNodup x)
        exact ⟨t, fun a b hab => ht a b (hs a b hab), ht _ _ hMade, hLast⟩

end Copying

/-- Copies answer alike, although the bounds of the two copies differ with the sizes of the tables.
-/
theorem Alike.copy {r : Pairing} {v w : Volume} (h : Alike r v w) (hv : Sound v) (hw : Sound w)
    (now : Instant) (source target : Text) (recursive : Bool) :
    EndsAlike (Matched r) (v.copy now source target recursive)
      (w.copy now source target recursive) := by
  rw [Volume.copy, Volume.copy]
  refine (h.lookupHeld hv source).bind fun x y hBoth => ?_
  obtain ⟨hPair, hHeld⟩ := hBoth
  refine EndsAlike.check ?_ fun _ => ?_
  · rw [h.isDirectory_eq hPair]
  refine ((h.destination hPair target).andLeft
    fun _ hPlace => isDirectory_of_destination hPlace).bind fun place facing hPlace => ?_
  obtain ⟨d, name⟩ := place
  obtain ⟨e, other⟩ := facing
  obtain ⟨⟨hDirectory, rfl⟩, hKind⟩ : (r d e ∧ name = other) ∧ v.isDirectory d = true := hPlace
  refine EndsAlike.check ?_ fun hOutside => ?_
  · rw [h.isDirectory_eq hPair, h.isAncestor_eq hv hw hPair hDirectory hHeld]
  obtain ⟨ha, hb⟩ | ⟨a, b, ha, hb, hExisting⟩ := rel_cases (h.child?_rel hDirectory name)
  · rw [ha, hb]
    have hApart := hv.forest.apart_of_outside hHeld hKind hOutside
    refine .result (copiesAlike now _ _ ⟨h, hv.forest, hw.forest, hPair, hDirectory, hKind,
      child?_eq_none_iff.mp ha, ⟨hHeld, hv.forest.shallow hHeld, hApart⟩, ?_⟩)
    have hPartner := (h.holds_iff hPair).mp hHeld
    refine ⟨hPartner, hw.forest.shallow hPartner, fun steps hLeads => hApart steps ?_⟩
    exact (h.leads_iff hPair hDirectory).mpr hLeads
  · rw [ha, hb]
    simp only [h.content?_eq hPair, h.content?_eq hExisting]
    split
    · exact .result ((h.setContent now hExisting _).matched hExisting)
    · exact .fault _

end TreeShell.Volume
