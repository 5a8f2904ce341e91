import Mathlib.Data.List.Forall2
import Mathlib.Logic.Relator
import TreeShell.Proofs.Volume.Relocate

/-! Volumes that differ in the numbers of their inodes only. A pairing says which numbers
stand for each other; inodes of paired numbers hold the same names, times and contents, and
their parents and children are paired in order. Each change that is made to paired numbers on
both sides keeps the volumes alike, and a new inode adds one pair. -/
namespace TreeShell.Volume

/-- Which numbers of two volumes stand for each other. -/
abbrev Pairing := InodeId → InodeId → Prop

/-- Two entries of a directory with the same name. -/
def SameEntry (r : Pairing) (left right : Text × InodeId) : Prop :=
  left.1 = right.1 ∧ r left.2 right.2

inductive SameBody (r : Pairing) : Body → Body → Prop where
  | file (content : Text) : SameBody r (.file content) (.file content)
  | directory {left right : List (Text × InodeId)} (listed : List.Forall₂ (SameEntry r) left right) :
      SameBody r (.directory left) (.directory right)

structure SameNode (r : Pairing) (left right : Inode) : Prop where
  name : left.name = right.name
  parent : Option.Rel r left.parent right.parent
  created : left.created = right.created
  modified : left.modified = right.modified
  body : SameBody r left.body right.body

/-- Paired numbers belong to inodes that differ in numbers only, or to none on either side. -/
structure Alike (r : Pairing) (v w : Volume) : Prop where
  unique : Relator.BiUnique r
  bounded : ∀ {x y}, r x y → x < v.slots.size ∧ y < w.slots.size
  root : r root root
  cwd : r v.cwd w.cwd
  node : ∀ {x y}, r x y → Option.Rel (SameNode r) (v.get? x) (w.get? y)

theorem rel_cases {α β : Type} {r : α → β → Prop} {left : Option α} {right : Option β}
    (h : Option.Rel r left right) : left = none ∧ right = none ∨
      ∃ a b, left = some a ∧ right = some b ∧ r a b := by
  cases h with
  | none => exact Or.inl ⟨rfl, rfl⟩
  | some h => exact Or.inr ⟨_, _, rfl, rfl, h⟩

/-- Lists whose elements show the same one by one show the same. -/
theorem map_eq_of_forall₂ {α β γ : Type} {f : α → γ} {g : β → γ} {left : List α} {right : List β}
    (h : List.Forall₂ (fun a b => f a = g b) left right) : left.map f = right.map g := by
  rw [← List.forall₂_eq_eq_eq, List.forall₂_map_left_iff, List.forall₂_map_right_iff]
  exact h

section Monotone

variable {r s : Pairing} (h : ∀ x y, r x y → s x y)
include h

theorem SameBody.mono {left right : Body} (hSame : SameBody r left right) :
    SameBody s left right := by
  cases hSame with
  | file content => exact .file content
  | directory listed => exact .directory (listed.imp fun _ _ hEntry => ⟨hEntry.1, h _ _ hEntry.2⟩)

theorem rel_mono {left right : Option InodeId} (hSame : Option.Rel r left right) :
    Option.Rel s left right := by
  cases hSame with
  | none => exact .none
  | some hPair => exact .some (h _ _ hPair)

theorem SameNode.mono {left right : Inode} (hSame : SameNode r left right) :
    SameNode s left right :=
  ⟨hSame.name, rel_mono h hSame.parent, hSame.created, hSame.modified, hSame.body.mono h⟩

end Monotone

section Views

variable {r : Pairing}

theorem SameNode.isDirectory {left right : Inode} (h : SameNode r left right) :
    left.isDirectory = right.isDirectory := by
  obtain ⟨_, _, _, _, left⟩ := left
  obtain ⟨_, _, _, _, right⟩ := right
  have hBody : SameBody r left right := h.body
  cases hBody <;> rfl

theorem SameNode.content? {left right : Inode} (h : SameNode r left right) :
    left.content? = right.content? := by
  obtain ⟨_, _, _, _, left⟩ := left
  obtain ⟨_, _, _, _, right⟩ := right
  have hBody : SameBody r left right := h.body
  cases hBody <;> rfl

theorem SameNode.entries {left right : Inode} (h : SameNode r left right) :
    List.Forall₂ (SameEntry r) left.entries right.entries := by
  obtain ⟨_, _, _, _, left⟩ := left
  obtain ⟨_, _, _, _, right⟩ := right
  have hBody : SameBody r left right := h.body
  cases hBody with
  | file content => exact .nil
  | directory listed => exact listed

variable {v w : Volume} (h : Alike r v w) {x y : InodeId} (hPair : r x y)
include h

/-- A number occurs on one side where its partner occurs on the other. -/
theorem Alike.eq_iff {a b : InodeId} (hPair : r x y) (hOther : r a b) : x = a ↔ y = b := by
  constructor
  · rintro rfl
    exact h.unique.2 hPair hOther
  · rintro rfl
    exact h.unique.1 hPair hOther

theorem Alike.beq_eq {a b : InodeId} (hPair : r x y) (hOther : r a b) : (x == a) = (y == b) := by
  rw [Bool.eq_iff_iff, beq_iff_eq, beq_iff_eq]
  exact h.eq_iff hPair hOther

include hPair

theorem Alike.isDirectory_eq : v.isDirectory x = w.isDirectory y := by
  rw [isDirectory, isDirectory]
  obtain ⟨hx, hy⟩ | ⟨_, _, hx, hy, hNode⟩ := rel_cases (h.node hPair)
  · rw [hx, hy]
  · rw [hx, hy]
    exact hNode.isDirectory

theorem Alike.content?_eq : v.content? x = w.content? y := by
  rw [content?, content?]
  obtain ⟨hx, hy⟩ | ⟨_, _, hx, hy, hNode⟩ := rel_cases (h.node hPair)
  · rw [hx, hy]
  · rw [hx, hy]
    exact hNode.content?

theorem Alike.isFile_eq : v.isFile x = w.isFile y := by
  rw [isFile, isFile, h.content?_eq hPair]

theorem Alike.nameOf_eq : v.nameOf x = w.nameOf y := by
  rw [nameOf, nameOf]
  obtain ⟨hx, hy⟩ | ⟨_, _, hx, hy, hNode⟩ := rel_cases (h.node hPair)
  · rw [hx, hy]
  · rw [hx, hy]
    exact hNode.name

theorem Alike.parentOf?_rel : Option.Rel r (v.parentOf? x) (w.parentOf? y) := by
  rw [parentOf?, parentOf?]
  obtain ⟨hx, hy⟩ | ⟨_, _, hx, hy, hNode⟩ := rel_cases (h.node hPair)
  · rw [hx, hy]
    exact .none
  · rw [hx, hy]
    exact hNode.parent

theorem Alike.entries_rel : List.Forall₂ (SameEntry r) (v.entries x) (w.entries y) := by
  rw [entries, entries]
  obtain ⟨hx, hy⟩ | ⟨_, _, hx, hy, hNode⟩ := rel_cases (h.node hPair)
  · rw [hx, hy]
    exact .nil
  · rw [hx, hy]
    exact hNode.entries

theorem Alike.names_eq : (v.entries x).map Prod.fst = (w.entries y).map Prod.fst :=
  map_eq_of_forall₂ ((h.entries_rel hPair).imp fun _ _ hEntry => hEntry.1)

theorem Alike.parent_getD {a b : InodeId} (hOther : r a b) :
    r ((v.parentOf? x).getD a) ((w.parentOf? y).getD b) := by
  obtain ⟨hx, hy⟩ | ⟨_, _, hx, hy, hUp⟩ := rel_cases (h.parentOf?_rel hPair)
  · rw [hx, hy]
    exact hOther
  · rw [hx, hy]
    exact hUp

omit h hPair in
/-- The same name is found in both directories or in neither, and leads to inodes that stand for
each other. -/
theorem lookup_rel {left right : List (Text × InodeId)}
    (hListed : List.Forall₂ (SameEntry r) left right) (name : Text) :
    Option.Rel r (left.lookup name) (right.lookup name) := by
  induction hListed with
  | nil => exact .none
  | @cons first second left right hEntry _ ih =>
      rw [List.lookup_cons, List.lookup_cons, hEntry.1]
      cases name == second.1 with
      | true => exact .some hEntry.2
      | false => exact ih

theorem Alike.child?_rel (name : Text) : Option.Rel r (v.child? x name) (w.child? y name) :=
  lookup_rel (h.entries_rel hPair) name

theorem Alike.child?_isSome (name : Text) :
    (v.child? x name).isSome = (w.child? y name).isSome := by
  obtain ⟨hx, hy⟩ | ⟨_, _, hx, hy, _⟩ := rel_cases (h.child?_rel hPair name)
  · rw [hx, hy]
  · rw [hx, hy]
    rfl

end Views

/-- One more pair. -/
def Pairing.extend (r : Pairing) (x y : InodeId) : Pairing := fun a b => r a b ∨ a = x ∧ b = y

section Changes

variable {r : Pairing} {v w : Volume} (h : Alike r v w)
include h

/-- A change that depends on nothing but what both inodes show keeps the volumes alike. -/
theorem Alike.update {x y : InodeId} (hPair : r x y) {change other : Inode → Inode}
    (hChange : ∀ left right, SameNode r left right → SameNode r (change left) (other right)) :
    Alike r (v.update x change) (w.update y other) := by
  refine ⟨h.unique, fun hr => ?_, h.root, h.cwd, fun {a b} hr => ?_⟩
  · simpa [Volume.update] using h.bounded hr
  · rw [get?_update, get?_update]
    by_cases hx : a = x
    · rw [if_pos hx, if_pos ((h.eq_iff hr hPair).mp hx)]
      obtain ⟨hx, hy⟩ | ⟨_, _, hx, hy, hNode⟩ := rel_cases (h.node hPair)
      · rw [hx, hy]
        exact .none
      · rw [hx, hy]
        exact .some (hChange _ _ hNode)
    · rw [if_neg hx, if_neg fun hy => hx ((h.eq_iff hr hPair).mpr hy)]
      exact h.node hr

/-- New inodes that are the same but for numbers keep volumes alike, when they stand for each other.
-/
theorem Alike.insert {left right : Inode} (hNode : SameNode r left right) :
    Alike (r.extend v.slots.size w.slots.size) (v.insert left).2 (w.insert right).2 := by
  have hOld : ∀ x y, r x y → r.extend v.slots.size w.slots.size x y := fun _ _ hr => Or.inl hr
  refine ⟨⟨?_, ?_⟩, ?_, Or.inl h.root, Or.inl h.cwd, ?_⟩
  · rintro a b c (ha | ⟨rfl, rfl⟩) (hb | ⟨rfl, hc⟩)
    · exact h.unique.1 ha hb
    · exact absurd (h.bounded ha).2 (hc ▸ Nat.lt_irrefl _)
    · exact absurd (h.bounded hb).2 (Nat.lt_irrefl _)
    · rfl
  · rintro a b c (hb | ⟨rfl, rfl⟩) (hc | ⟨ha, rfl⟩)
    · exact h.unique.2 hb hc
    · exact absurd (h.bounded hb).1 (ha ▸ Nat.lt_irrefl _)
    · exact absurd (h.bounded hc).1 (Nat.lt_irrefl _)
    · rfl
  · rintro a b (hr | ⟨rfl, rfl⟩)
    · rw [size_insert, size_insert]
      exact ⟨Nat.lt_succ_of_lt (h.bounded hr).1, Nat.lt_succ_of_lt (h.bounded hr).2⟩
    · rw [size_insert, size_insert]
      exact ⟨Nat.lt_succ_self _, Nat.lt_succ_self _⟩
  · rintro a b (hr | ⟨rfl, rfl⟩)
    · rw [get?_insert_of_lt v left (h.bounded hr).1, get?_insert_of_lt w right (h.bounded hr).2]
      obtain ⟨hx, hy⟩ | ⟨_, _, hx, hy, hSame⟩ := rel_cases (h.node hr)
      · rw [hx, hy]
        exact .none
      · rw [hx, hy]
        exact .some (hSame.mono hOld)
    · rw [get?_insert_self, get?_insert_self]
      exact .some (hNode.mono hOld)

/-- Inodes that stand for each other are discarded together. -/
theorem Alike.discard {ids others : List InodeId}
    (hIds : ∀ x y, r x y → (x ∈ ids ↔ y ∈ others)) :
    Alike r (v.discard ids) (w.discard others) := by
  refine ⟨h.unique, fun hr => ?_, h.root, h.cwd, fun {a b} hr => ?_⟩
  · rw [size_discard, size_discard]
    exact h.bounded hr
  · rw [get?_discard, get?_discard]
    by_cases hx : a ∈ ids
    · rw [if_pos hx, if_pos ((hIds a b hr).mp hx)]
      exact .none
    · rw [if_neg hx, if_neg fun hy => hx ((hIds a b hr).mpr hy)]
      exact h.node hr

theorem Alike.withCwd {x y : InodeId} (hPair : r x y) :
    Alike r { v with cwd := x } { w with cwd := y } :=
  ⟨h.unique, h.bounded, h.root, hPair, h.node⟩

theorem Alike.touch (now : Instant) {x y : InodeId} (hPair : r x y) :
    Alike r (v.touch now x) (w.touch now y) :=
  h.update hPair fun _ _ hNode => ⟨hNode.name, hNode.parent, hNode.created, rfl, hNode.body⟩

theorem Alike.setContent (now : Instant) {x y : InodeId} (hPair : r x y) (content : Text) :
    Alike r (v.setContent now x content) (w.setContent now y content) :=
  h.update hPair fun _ _ hNode => ⟨hNode.name, hNode.parent, hNode.created, rfl, .file content⟩

/-- Attaching inodes that stand for each other under one name keeps the volumes alike. -/
theorem Alike.attach {d e x y : InodeId} (hDirectory : r d e) (hPair : r x y) (name : Text) :
    Alike r (v.attach d x name) (w.attach e y name) := by
  rw [Volume.attach, Volume.attach]
  refine Alike.update (h.update hDirectory fun _ _ hNode => ?_) hPair fun _ _ hNode => ?_
  · exact ⟨hNode.name, hNode.parent, hNode.created, hNode.modified,
      .directory (List.rel_append hNode.entries (.cons ⟨rfl, hPair⟩ .nil))⟩
  · exact ⟨rfl, .some hDirectory, hNode.created, hNode.modified, hNode.body⟩

theorem Alike.link (now : Instant) {d e x y : InodeId} (hDirectory : r d e) (hPair : r x y)
    (name : Text) : Alike r (v.link now d x name) (w.link now e y name) :=
  (h.attach hDirectory hPair name).touch now hDirectory

theorem Alike.unlink (now : Instant) {x y : InodeId} (hPair : r x y) :
    Alike r (v.unlink now x) (w.unlink now y) := by
  rw [Volume.unlink, Volume.unlink]
  obtain ⟨hx, hy⟩ | ⟨left, right, hx, hy, hNode⟩ := rel_cases (h.node hPair)
  · rw [hx, hy]
    exact h
  · rw [hx, hy]
    obtain ⟨name, parent, _, _, _⟩ := left
    obtain ⟨_, other, _, _, _⟩ := right
    obtain rfl : name = _ := hNode.name
    have hParent : Option.Rel r parent other := hNode.parent
    cases hParent with
    | none => exact h
    | some hUp =>
        refine Alike.update (h.update hUp fun _ _ hSame => ?_) hPair fun _ _ hSame => ?_
        · refine ⟨hSame.name, hSame.parent, hSame.created, rfl, .directory ?_⟩
          refine List.rel_filter (fun first second hEntry => ?_) hSame.entries
          change (first.1 != name) = true ↔ (second.1 != name) = true
          rw [hEntry.1]
        · exact ⟨hSame.name, .none, hSame.created, hSame.modified, hSame.body⟩

end Changes

section Paths

variable {r : Pairing} {v w : Volume} (h : Alike r v w)
include h

theorem Alike.follow (path part : Text) {x y : InodeId} (hPair : r x y) :
    EndsAlike r (v.follow path x part) (w.follow path y part) := by
  rw [Volume.follow, Volume.follow, h.isDirectory_eq hPair]
  split
  · exact .result hPair
  · split
    · exact .fault _
    · split
      · exact .result (h.parent_getD hPair hPair)
      · obtain ⟨hx, hy⟩ | ⟨_, _, hx, hy, hFound⟩ := rel_cases (h.child?_rel hPair part)
        · rw [hx, hy]
          exact .fault _
        · rw [hx, hy]
          exact .result hFound

theorem Alike.followAll (path : Text) (parts : List Text) {x y : InodeId} (hPair : r x y) :
    EndsAlike r (parts.foldlM (v.follow path) x) (parts.foldlM (w.follow path) y) := by
  induction parts generalizing x y with
  | nil => exact .result hPair
  | cons part parts ih =>
      rw [List.foldlM_cons, List.foldlM_cons]
      exact (h.follow path part hPair).bind fun _ _ hNext => ih hNext

/-- The same path leads to inodes that stand for each other, or fails alike. -/
theorem Alike.lookupFrom (path : Text) {x y : InodeId} (hPair : r x y) :
    EndsAlike r (v.lookupFrom x path) (w.lookupFrom y path) := by
  have hStart : r (v.startAt x) (w.startAt y) := by
    rw [startAt, startAt, h.isFile_eq hPair]
    split
    · exact h.parent_getD hPair hPair
    · exact hPair
  have hOrigin : r (if Path.isAbsolute path then Volume.root else v.startAt x)
      (if Path.isAbsolute path then Volume.root else w.startAt y) := by
    split
    · exact h.root
    · exact hStart
  rw [Volume.lookupFrom, Volume.lookupFrom]
  refine EndsAlike.check Iff.rfl fun _ => ?_
  refine (h.followAll path _ hOrigin).bind fun a b hFound => ?_
  refine EndsAlike.check ?_ fun _ => .result hFound
  rw [h.isFile_eq hFound]

/-- Paths lead to paired inodes, or to the same fault. -/
theorem Alike.lookup (path : Text) : EndsAlike r (v.lookup path) (w.lookup path) :=
  h.lookupFrom path h.cwd

theorem Alike.resolve? (path : Text) : Option.Rel r (v.resolve? path) (w.resolve? path) :=
  (h.lookup path).toOption

/-- Reading answers with contents, which hold no inode numbers, so it answers the same. -/
theorem Alike.readFile (path : Text) : v.readFile path = w.readFile path := by
  refine ((h.lookup path).bind fun a b hFound => ?_).eq
  rw [h.content?_eq hFound]
  split
  · exact .result rfl
  · exact .fault _

/-- A path has its place in directories that stand for each other, under the same name. -/
theorem Alike.placeFor (path : Text) :
    EndsAlike (fun left right => r left.1 right.1 ∧ left.2 = right.2)
      (v.placeFor path) (w.placeFor path) := by
  rw [Volume.placeFor, Volume.placeFor]
  refine EndsAlike.check Iff.rfl fun _ => ?_
  refine (h.lookup _).bind fun a b hFound => ?_
  refine EndsAlike.check ?_ fun _ => .result ⟨hFound, rfl⟩
  rw [h.isDirectory_eq hFound]

theorem Alike.changeDirectory (path : Text) :
    EndsAlike (Alike r) (v.changeDirectory path) (w.changeDirectory path) := by
  rw [Volume.changeDirectory, Volume.changeDirectory]
  split
  · exact .result (h.withCwd h.root)
  · refine (h.lookup path).bind fun a b hFound => EndsAlike.check ?_ fun _ => .result ?_
    · rw [h.isDirectory_eq hFound]
    · exact h.withCwd hFound

end Paths

/-- Results of a change: volumes that are alike under a larger pairing, and a pair of it. -/
def Matched (r : Pairing) (left right : InodeId × Volume) : Prop :=
  ∃ s : Pairing, (∀ x y, r x y → s x y) ∧ s left.1 right.1 ∧ Alike s left.2 right.2

/-- Results of a change that may have been made in part when it fails: volumes that are alike under a
larger pairing, and a pair of it or the same fault. -/
def MatchedPartly (r : Pairing) (left right : Except Fault InodeId × Volume) : Prop :=
  ∃ s : Pairing, (∀ x y, r x y → s x y) ∧ EndsAlike s left.1 right.1 ∧ Alike s left.2 right.2

section Creating

variable {r : Pairing} {v w : Volume} (h : Alike r v w) (now : Instant)
include h

theorem Alike.matchedPartly {x y : InodeId} (hPair : r x y) : MatchedPartly r (.ok x, v) (.ok y, w) :=
  ⟨r, fun _ _ hr => hr, .result hPair, h⟩

theorem Alike.matched {x y : InodeId} (hPair : r x y) : Matched r (x, v) (y, w) :=
  ⟨r, fun _ _ hr => hr, hPair, h⟩

/-- A new child of directories that stand for each other makes one more pair. -/
theorem Alike.add {d e : InodeId} (hDirectory : r d e) (name : Text) {body : Body}
    (hBody : SameBody r body body) : Matched r (v.add now d name body) (w.add now e name body) := by
  refine ⟨r.extend v.slots.size w.slots.size, fun _ _ hr => Or.inl hr, Or.inr ⟨rfl, rfl⟩, ?_⟩
  have hNode : SameNode r ⟨name, some d, now, now, body⟩ ⟨name, some e, now, now, body⟩ :=
    ⟨rfl, .some hDirectory, rfl, rfl, hBody⟩
  exact (h.insert hNode).link now (Or.inl hDirectory) (Or.inr ⟨rfl, rfl⟩) name

theorem Alike.create (path : Text) {body : Body} (hBody : SameBody r body body) :
    EndsAlike (Matched r) (v.create now path body) (w.create now path body) := by
  refine (h.placeFor path).bind fun ⟨d, name⟩ ⟨e, other⟩ hPlace => ?_
  obtain ⟨hDirectory, rfl⟩ : r d e ∧ name = other := hPlace
  refine EndsAlike.check ?_ fun _ => .result (h.add now hDirectory name hBody)
  rw [h.child?_isSome hDirectory]

/-- Both creations leave volumes that are alike, whether they fail before the link, behind it, or
not at all. -/
theorem Alike.createFile (path content : Text) :
    MatchedPartly r (v.createFile now path content) (w.createFile now path content) := by
  have hCreated : EndsAlike (Matched r) (v.create now path (.file content))
      (w.create now path (.file content)) := h.create now path (.file content)
  rw [Volume.createFile, Volume.createFile]
  generalize v.create now path (.file content) = left at hCreated
  generalize w.create now path (.file content) = right at hCreated
  cases hCreated with
  | fault fault => exact ⟨r, fun _ _ hr => hr, .fault fault, h⟩
  | result hMatched =>
      obtain ⟨s, hs, hPair, hAlike⟩ := hMatched
      refine ⟨s, hs, ?_, hAlike⟩
      cases hMeasured : content.measure with
      | error fault => exact .fault fault
      | ok size => exact .result hPair

/-- Also where writing fails half-way, the two volumes are alike afterwards. -/
theorem Alike.writeFile (path content : Text) (append : Bool) :
    MatchedPartly r (v.writeFile now path content append) (w.writeFile now path content append) := by
  rw [Volume.writeFile, Volume.writeFile]
  obtain ⟨hx, hy⟩ | ⟨a, b, hx, hy, hFound⟩ := rel_cases (h.resolve? path)
  · rw [hx, hy]
    exact h.createFile now path content
  · rw [hx, hy]
    simp only [h.content?_eq hFound]
    split
    · exact ⟨r, fun _ _ hr => hr, .fault _, h⟩
    · exact (h.setContent now hFound _).matchedPartly hFound

theorem Alike.touchPath (path : Text) :
    MatchedPartly r (v.touchPath now path) (w.touchPath now path) := by
  rw [Volume.touchPath, Volume.touchPath]
  obtain ⟨hx, hy⟩ | ⟨a, b, hx, hy, hFound⟩ := rel_cases (h.resolve? path)
  · rw [hx, hy]
    exact h.createFile now path []
  · rw [hx, hy]
    exact (h.touch now hFound).matchedPartly hFound

/-- Going along a path keeps volumes alike, also when it ends at a file. -/
theorem Alike.enter (path : Text) (parts : List Text) {x y : InodeId} (hPair : r x y) :
    MatchedPartly r (enter now path parts x v) (enter now path parts y w) := by
  induction parts generalizing r v w x y with
  | nil => exact ⟨r, fun _ _ hr => hr, .result hPair, h⟩
  | cons part parts ih =>
      rw [Volume.enter, Volume.enter]
      split
      · exact ih h hPair
      · split
        · exact ih h (h.parent_getD hPair hPair)
        · obtain ⟨hx, hy⟩ | ⟨a, b, hx, hy, hFound⟩ := rel_cases (h.child?_rel hPair part)
          · rw [hx, hy]
            obtain ⟨s, hs, hMade, hAdded⟩ := h.add now hPair part (.directory .nil)
            obtain ⟨t, ht, hRest⟩ := ih hAdded hMade
            exact ⟨t, fun x y hr => ht x y (hs x y hr), hRest⟩
          · rw [hx, hy]
            simp only [h.isDirectory_eq hFound]
            split
            · exact ih h hFound
            · exact ⟨r, fun _ _ hr => hr, .fault _, h⟩

/-- Directories are made alike, also as far as a fault in the middle of the path. -/
theorem Alike.createDirectories (path : Text) :
    MatchedPartly r (v.createDirectories now path) (w.createDirectories now path) := by
  refine h.enter now path _ ?_
  split
  · exact h.root
  · exact h.cwd

end Creating

end TreeShell.Volume
