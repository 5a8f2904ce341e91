import TreeShell.Proofs.Text
import TreeShell.Proofs.Volume.History

/-! Names and times of the inodes in a volume. No operation but the reading of a snapshot gives
a child a name that a path cannot lead through, and every other time in the table is one that the
clock has given; a tidy volume is one where this holds, for a clock of which only some times are
known to be possible. -/
namespace TreeShell

/-- A time that is read back from its written form. -/
def Instant.Readable (t : Instant) : Prop := Instant.parse t.render = .ok t

theorem Instant.Readable.render_ne_nil {t : Instant} (h : t.Readable) : t.render ≠ [] := by
  intro hEmpty
  rw [Readable, hEmpty] at h
  cases h

/-- Times that can be read back are told apart by their written forms. -/
theorem Instant.Readable.eq_of_render_eq {s t : Instant} (hs : s.Readable) (ht : t.Readable)
    (h : s.render = t.render) : s = t := by
  rw [Readable, h, ht] at hs
  exact (Except.ok.inj hs).symm

/-- A name that one part of a path can be, and that leads to a child. -/
structure Path.IsChildName (name : Text) : Prop where
  valid : Path.isValidName name = true
  single : chr '/' ∉ name

/-- A part that neither stays nor goes up names a child. -/
theorem Path.isValidName_iff {part : Text} : Path.isValidName part = true ↔
    ¬ Path.staysPut part = true ∧ ¬ (part == Path.up) = true := by
  simp [Path.isValidName]

/-- A path is split at its slashes, so no part of it holds one. -/
theorem Path.not_mem_parse (path : Text) : chr '/' ∉ (Path.parse path).2 := by
  rw [Path.parse]
  generalize path.dropEndWhile (· == '/') = body
  split
  · split <;> simp
  · rw [Text.breakOnLast?]
    cases hBreak : Text.breakOn? (chr '/') body.reverse with
    | none => simpa using Text.not_mem_of_breakOn?_eq_none hBreak
    | some parts =>
        obtain ⟨after, before⟩ := parts
        have hName : chr '/' ∉ after.reverse := by
          simpa using Text.not_mem_of_breakOn?_eq_some hBreak
        rw [Option.map_some]
        split
        · rename_i hNone
          cases hNone
        · rename_i hSome
          rwa [(Prod.mk.inj (Option.some.inj hSome)).2] at hName
        · rename_i hSome
          rwa [(Prod.mk.inj (Option.some.inj hSome)).2] at hName

namespace Volume

/-- An inode with times that a clock can give and a name that suits its number. -/
structure Fits (clock : Instant → Prop) (id : InodeId) (node : Inode) : Prop where
  created : clock node.created
  modified : clock node.modified
  rootName : id = root → node.name = []
  childName : id ≠ root → Path.IsChildName node.name

/-- A table where every inode fits its number. -/
structure Tidy (clock : Instant → Prop) (v : Volume) : Prop where
  filled : root < v.slots.size
  fits : ∀ id node, v.get? id = some node → Fits clock id node

theorem tidy_fresh {clock : Instant → Prop} {now : Instant} (hNow : clock now) :
    Tidy clock (fresh now) := by
  refine ⟨by simp [fresh, root], fun id node hNode => ?_⟩
  cases id with
  | zero =>
      cases hNode
      exact ⟨hNow, hNow, fun _ => rfl, fun hRoot => absurd rfl hRoot⟩
  | succ id => simp [fresh, get?] at hNode

section Changes

variable {clock : Instant → Prop} {v : Volume} (h : Tidy clock v)
include h

theorem Tidy.update {id : InodeId} {change : Inode → Inode}
    (hChange : ∀ node, Fits clock id node → Fits clock id (change node)) :
    Tidy clock (v.update id change) := by
  refine ⟨by simpa [Volume.update] using h.filled, fun x node hNode => ?_⟩
  rw [get?_update] at hNode
  split at hNode
  · rename_i hx
    subst hx
    obtain ⟨old, hOld, rfl⟩ := Option.map_eq_some_iff.mp hNode
    exact hChange old (h.fits x old hOld)
  · exact h.fits x node hNode

theorem Tidy.insert {node : Inode} (hNode : Fits clock v.slots.size node) :
    Tidy clock (v.insert node).2 := by
  refine ⟨by simp [Volume.insert, root], fun x other hOther => ?_⟩
  rw [get?_insert] at hOther
  split at hOther
  · rename_i hx
    cases hOther
    rw [hx]
    exact hNode
  · exact h.fits x other hOther

theorem Tidy.discard (ids : List InodeId) : Tidy clock (v.discard ids) := by
  refine ⟨by rw [size_discard]; exact h.filled, fun x node hNode => ?_⟩
  rw [get?_discard] at hNode
  split at hNode
  · cases hNode
  · exact h.fits x node hNode

theorem Tidy.withCwd (cwd : InodeId) : Tidy clock { v with cwd := cwd } := ⟨h.filled, h.fits⟩

/-- The number of a new inode is not that of the root. -/
theorem Tidy.size_ne_root : v.slots.size ≠ root := Nat.ne_of_gt h.filled

variable {now : Instant} (hNow : clock now)

theorem Tidy.unlink (hNow : clock now) (id : InodeId) : Tidy clock (v.unlink now id) := by
  rw [Volume.unlink]
  split
  · refine Tidy.update (h.update fun _ hFits => ?_) fun _ hFits => ?_
    · exact ⟨hFits.created, hNow, hFits.rootName, hFits.childName⟩
    · exact ⟨hFits.created, hFits.modified, hFits.rootName, hFits.childName⟩
  · exact h

/-- An inode that is attached must get the name of a child, and must not be the root. -/
theorem Tidy.attach {directory id : InodeId} {name : Text} (hId : id ≠ root)
    (hName : Path.IsChildName name) : Tidy clock (v.attach directory id name) := by
  rw [Volume.attach]
  refine (h.update fun _ hFits => ?_).update fun _ hFits => ?_
  · exact ⟨hFits.created, hFits.modified, hFits.rootName, hFits.childName⟩
  · exact ⟨hFits.created, hFits.modified, fun hRoot => absurd hRoot hId, fun _ => hName⟩

include hNow

theorem Tidy.touch (id : InodeId) : Tidy clock (v.touch now id) :=
  h.update fun _ hFits => ⟨hFits.created, hNow, hFits.rootName, hFits.childName⟩

theorem Tidy.setContent (id : InodeId) (content : Text) :
    Tidy clock (v.setContent now id content) :=
  h.update fun _ hFits => ⟨hFits.created, hNow, hFits.rootName, hFits.childName⟩

theorem Tidy.link {directory id : InodeId} {name : Text} (hId : id ≠ root)
    (hName : Path.IsChildName name) : Tidy clock (v.link now directory id name) :=
  (h.attach hId hName).touch hNow directory

theorem Tidy.add (directory : InodeId) {name : Text} (hName : Path.IsChildName name) (body : Body) :
    Tidy clock (v.add now directory name body).2 := by
  have hNode : Fits clock v.slots.size ⟨name, some directory, now, now, body⟩ :=
    ⟨hNow, hNow, fun hRoot => absurd hRoot h.size_ne_root, fun _ => hName⟩
  exact (h.insert hNode).link hNow h.size_ne_root hName

end Changes

/-- A place has a name that a child can have. -/
theorem isChildName_of_placeFor {v : Volume} {path name : Text} {directory : InodeId}
    (h : v.placeFor path = .ok (directory, name)) : Path.IsChildName name := by
  simp only [placeFor, check_eq_ok, bind_eq_ok] at h
  obtain ⟨hValid, _, _, _, hSame⟩ := h
  cases hSame
  exact ⟨by simpa using hValid, Path.not_mem_parse path⟩

section Operations

variable {clock : Instant → Prop} {v w : Volume} {now : Instant} (h : Tidy clock v)
  (hNow : clock now)
include h hNow

theorem Tidy.create {path : Text} {body : Body} {id : InodeId}
    (hw : v.create now path body = .ok (id, w)) : Tidy clock w := by
  simp only [Volume.create, check_eq_ok, bind_eq_ok] at hw
  obtain ⟨⟨directory, name⟩, hPlace, _, hSame⟩ := hw
  cases hSame
  exact h.add hNow directory (isChildName_of_placeFor hPlace) body

/-- Directories that are made on the way get the parts of the path as names. -/
theorem Tidy.enter (path : Text) (parts : List Text) (hParts : ∀ part ∈ parts, chr '/' ∉ part)
    (current : InodeId) : Tidy clock (enter now path parts current v).2 := by
  induction parts generalizing v current with
  | nil => exact h
  | cons part parts ih =>
      have hRest : ∀ part ∈ parts, chr '/' ∉ part := fun t ht => hParts t (List.mem_cons_of_mem _ ht)
      rw [Volume.enter]
      split
      · exact ih h hRest _
      · rename_i hMoves
        split
        · exact ih h hRest _
        · rename_i hDown
          split
          · have hName : Path.IsChildName part :=
              ⟨Path.isValidName_iff.mpr ⟨hMoves, hDown⟩, hParts part (List.mem_cons_self ..)⟩
            exact ih (h.add hNow current hName _) hRest _
          · split
            · exact ih h hRest _
            · exact h

theorem Tidy.createDirectories (path : Text) : Tidy clock (v.createDirectories now path).2 :=
  h.enter hNow path _ (fun _ hPart => Text.not_mem_of_mem_splitOn hPart) _

theorem Tidy.createFile (path content : Text) : Tidy clock (v.createFile now path content).2 := by
  obtain ⟨fault, _, hFailed⟩ | ⟨id, w, hCreated, hMade⟩ := createFile_cases v now path content
  · rw [hFailed]
    exact h
  · rw [hMade]
    exact h.create hNow hCreated

theorem Tidy.writeFile (path content : Text) (append : Bool) :
    Tidy clock (v.writeFile now path content append).2 := by
  rw [Volume.writeFile]
  split
  · exact h.createFile hNow path content
  · split
    · exact h
    · exact h.setContent hNow _ _

theorem Tidy.touchPath (path : Text) : Tidy clock (v.touchPath now path).2 := by
  rw [Volume.touchPath]
  split
  · exact h.createFile hNow path []
  · exact h.touch hNow _

theorem Tidy.remove {path : Text} {recursive : Bool}
    (hw : v.remove now path recursive = .ok w) : Tidy clock w := by
  simp only [Volume.remove, check_eq_ok, bind_eq_ok] at hw
  obtain ⟨found, _, _, _, hSame⟩ := hw
  cases hSame
  exact ((h.unlink hNow found).discard _).withCwd _

omit hNow in
theorem Tidy.changeDirectory {path : Text} (hw : v.changeDirectory path = .ok w) : Tidy clock w := by
  rw [Volume.changeDirectory] at hw
  split at hw
  · cases hw
    exact h.withCwd root
  · simp only [check_eq_ok, bind_eq_ok] at hw
    obtain ⟨found, _, _, hSame⟩ := hw
    cases hSame
    exact h.withCwd found

omit hNow in
theorem Tidy.isChildName {id : InodeId} (hHeld : v.Holds id) (hRoot : id ≠ root) :
    Path.IsChildName (v.nameOf id) := by
  obtain ⟨node, hNode⟩ := holds_iff.mp hHeld
  rw [nameOf, hNode]
  exact (h.fits id node hNode).childName hRoot

omit hNow in
/-- The name at a destination was parsed from the target, or is that of the source, which is not the
root. -/
theorem Tidy.isChildName_of_destination {source directory : InodeId} {target name : Text}
    (hHeld : v.Holds source) (hRoot : source ≠ root)
    (hPlace : v.destination source target = .ok (directory, name)) : Path.IsChildName name := by
  rw [destination] at hPlace
  split at hPlace
  · split at hPlace
    · cases hPlace
      exact h.isChildName hHeld hRoot
    · exact isChildName_of_placeFor hPlace
  · exact isChildName_of_placeFor hPlace

/-- A moved inode gets a name that was parsed from a path or keeps the one that it had. -/
theorem Tidy.move {source target : Text} {id : InodeId} (hSound : Sound v)
    (hw : v.move now source target = .ok (id, w)) : Tidy clock w := by
  simp only [Volume.move, check_eq_ok, bind_eq_ok] at hw
  obtain ⟨node, hNode, hRoot, ⟨directory, name⟩, hPlace, _, hRest⟩ := hw
  have hRoot : node ≠ root := by simpa using hRoot
  have hName := h.isChildName_of_destination (hSound.holds_lookup hNode) hRoot hPlace
  have hLast : ∀ cleared : Volume, Tidy clock cleared →
      Tidy clock ((cleared.unlink now node).link now directory node name) :=
    fun _ hCleared => (hCleared.unlink hNow node).link hNow hRoot hName
  split at hRest
  · rename_i existing _
    split at hRest
    · cases hRest
      exact hLast v h
    · split at hRest
      · cases hRest
      · split at hRest
        · cases hRest
        · cases hRest
          exact hLast _ ((h.unlink hNow existing).discard _)
  · cases hRest
    exact hLast v h

end Operations

section Copies

variable {clock : Instant → Prop} {now : Instant} (hNow : clock now)
include hNow

omit hNow in
/-- Children are copied one after the other into a new directory. -/
theorem Tidy.copyEach {bound : Nat} {made : InodeId}
    (hOne : ∀ {w : Volume} {name : Text}, Tidy clock w → Forest [] w → (child : InodeId) →
      w.isDirectory made = true → name ∉ (w.entries made).map Prod.fst → Path.IsChildName name →
        Tidy clock (Volume.copyInto now bound w child made name).2)
    (names : InodeId → Text) (children : List (Text × InodeId)) {w : Volume} (h : Tidy clock w)
    (hForest : Forest [] w) (hMade : w.isDirectory made = true)
    (hNames : ((w.entries made).map Prod.fst ++ children.map fun child => names child.2).Nodup)
    (hValid : ∀ child ∈ children, Path.IsChildName (names child.2)) :
    Tidy clock (children.foldl
      (fun w (_, child) => (Volume.copyInto now bound w child made (names child)).2) w) := by
  induction children generalizing w with
  | nil => exact h
  | cons child children ih =>
      obtain ⟨_, child⟩ := child
      have hFree : names child ∉ (w.entries made).map Prod.fst := by
        intro hMem
        exact List.disjoint_of_nodup_append hNames hMem (by simp)
      have hMore := hForest.copyInto now bound child hMade hFree
      exact ih (hOne h hForest child hMade hFree (hValid _ (List.mem_cons_self ..)))
        hMore.forest (hMore.grown.isDirectory made hMade) (by rw [hMore.names]; simpa using hNames)
        (fun other hOther => hValid other (List.mem_cons_of_mem _ hOther))

/-- A copy is named like what is copied, below the name that is given. The induction is on
the levels that are copied. -/
theorem Tidy.copyInto (bound : Nat) {v : Volume} (h : Tidy clock v) (hForest : Forest [] v)
    (source : InodeId) {directory : InodeId} {name : Text}
    (hDirectory : v.isDirectory directory = true)
    (hFree : name ∉ (v.entries directory).map Prod.fst) (hName : Path.IsChildName name) :
    Tidy clock (Volume.copyInto now bound v source directory name).2 := by
  induction bound generalizing v source directory name with
  | zero => exact h.add hNow directory hName _
  | succ bound ih =>
      rw [Volume.copyInto]
      split
      · exact h.add hNow directory hName _
      · have hAdded := hForest.add now hDirectory hFree
          (show (Inode.mk name (some directory) now now (.directory [])).entries = [] from rfl)
        refine Tidy.copyEach (fun hw hTree child => ih hw hTree child) v.nameOf (v.entries source)
          (h.add hNow directory hName _) hAdded.forest hAdded.isDirectory ?_ ?_
        · rw [hAdded.bare, hForest.childNames]
          exact hForest.namesNodup source
        · intro child hChild
          obtain ⟨hTop, hHeld, _⟩ := hForest.entry source child.1 child.2 hChild
          exact h.isChildName hHeld (by simpa using hTop)

/-- The copy is named by the path, and what is below it like what it was copied from. -/
theorem Tidy.copy {v w : Volume} {source target : Text} {recursive : Bool} {id : InodeId}
    (h : Tidy clock v) (hSound : Sound v) (hw : v.copy now source target recursive = .ok (id, w)) :
    Tidy clock w := by
  simp only [Volume.copy, check_eq_ok, bind_eq_ok] at hw
  obtain ⟨node, hNode, _, ⟨directory, name⟩, hPlace, hOutside, hRest⟩ := hw
  have hHeld := hSound.holds_lookup hNode
  have hDirectory := isDirectory_of_destination hPlace
  -- Everything is below the root, so that the root is never copied.
  have hRoot : node ≠ root := by
    rintro rfl
    obtain ⟨top, hTop, steps, hLeads⟩ :=
      hSound.forest.underTop directory (holds_of_isDirectory hDirectory)
    obtain rfl := List.mem_singleton.mp hTop
    have hAbove := (hSound.forest.isAncestor_iff hHeld).mpr ⟨steps, hLeads⟩
    exact hOutside (by rw [hSound.forest.rootDirectory, hAbove]; rfl)
  split at hRest
  · split at hRest
    · cases hRest
      exact h.setContent hNow _ _
    · cases hRest
  · rename_i hChild
    have hCopy := h.copyInto hNow v.slots.size hSound.forest node hDirectory
      (child?_eq_none_iff.mp hChild) (h.isChildName_of_destination hHeld hRoot hPlace)
    rw [Except.ok.inj hRest] at hCopy
    exact hCopy

end Copies

/-- One operation keeps a volume tidy, unless it reads a snapshot that is not. -/
theorem Tidy.perform {clock : Instant → Prop} {v : Volume} (h : Tidy clock v) (hSound : Sound v)
    {now : Instant} (hNow : clock now) {operation : Operation}
    (hRestore : ∀ written w, operation = .restore written → written.toVolume now = .ok w →
      Tidy clock w)
    (hReload : ∀ w, (Snapshot.ofVolume v).toVolume now = .ok w → Tidy clock w) :
    Tidy clock (v.perform now operation).2 := by
  cases operation with
  | createFile path content => exact h.createFile hNow path content
  | createDirectory path => exact settle_keeps h fun _ _ hw => h.create hNow hw
  | createDirectories path => exact h.createDirectories hNow path
  | writeFile path content append => exact h.writeFile hNow path content append
  | touch path => exact h.touchPath hNow path
  | move source target => exact settle_keeps h fun _ _ hw => h.move hNow hSound hw
  | copy source target recursive => exact settle_keeps h fun _ _ hw => h.copy hNow hSound hw
  | remove path recursive => exact settleSilently_keeps h fun _ hw => h.remove hNow hw
  | changeDirectory path => exact settleSilently_keeps h fun _ hw => h.changeDirectory hw
  | restore written => exact settleSilently_keeps h fun w hw => hRestore written w rfl hw
  | reload =>
      rw [Volume.perform]
      split
      · rename_i hw
        exact hReload _ hw
      · exact h
  | lookup path => exact h
  | resolve path start => exact h
  | read path => exact h
  | walk path lead => exact h
  | children path => exact h
  | isAncestor ancestor path => exact h
  | snapshot path => exact h

end Volume

end TreeShell
