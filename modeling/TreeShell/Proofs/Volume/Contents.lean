import TreeShell.Proofs.Volume.Descent

/-! What is below a directory, as a list of names and contents. A list in which every directory stands
before what is in it describes a tree that can be made one entry after the other; the walk below a
directory gives such a list, and making its entries below another directory that is empty gives a
directory with the same list. -/
namespace TreeShell.Volume

/-- The inodes that a walk meets, by the names that lead to them, and their contents if they are
files. -/
def byNames (v : Volume) (met : List (Text × InodeId)) : List (List Text × Option Text) :=
  met.map fun (path, id) => (path.splitOn (chr '/'), v.content? id)

/-- Everything below a directory, in the order of a walk. -/
def treeBelow (v : Volume) (directory : InodeId) : List (List Text × Option Text) :=
  v.byNames (v.walk directory)

/-- An entry can be made when the ones in front of it are there. -/
structure Joins (front : List (List Text × Option Text)) (around : List Text) (name : Text) : Prop where
  aroundNames : ∀ other ∈ around, Path.IsChildName other
  childName : Path.IsChildName name
  parent : around = [] ∨ (around, none) ∈ front
  fresh : around ++ [name] ∉ front.map Prod.fst

/-- A list of names and contents that describes a tree, each directory before what is in it. -/
structure Arranged (found : List (List Text × Option Text)) : Prop where
  childNames : ∀ entry ∈ found, entry.1 ≠ [] ∧ ∀ name ∈ entry.1, Path.IsChildName name
  nodup : (found.map Prod.fst).Nodup
  parents : ∀ entry ∈ found, entry.1.dropLast = [] ∨ (entry.1.dropLast, none) ∈ found
  ordered : found.Pairwise fun a b => b.1 ≠ a.1.dropLast

/-- An entry of an arranged list stands in a directory that was listed before it, under a name that
is new there. -/
theorem Arranged.joins {front back : List (List Text × Option Text)} {names : List Text}
    {content : Option Text} (h : Arranged (front ++ (names, content) :: back)) :
    ∃ around name, names = around ++ [name] ∧ Joins front around name := by
  have hMem : (names, content) ∈ front ++ (names, content) :: back := by simp
  obtain ⟨hSome, hNames⟩ := h.childNames _ hMem
  obtain ⟨around, name, rfl⟩ := (List.eq_nil_or_concat' names).resolve_left hSome
  have hFresh : around ++ [name] ∉ front.map Prod.fst := by
    have hNodup := h.nodup
    rw [List.map_append, List.map_cons, List.nodup_append] at hNodup
    exact fun hFront => hNodup.2.2 _ hFront _ (List.mem_cons_self ..) rfl
  refine ⟨around, name, rfl, fun other hOther => hNames other (List.mem_append_left _ hOther),
    hNames name (by simp), ?_, hFresh⟩
  have hParent := h.parents _ hMem
  rw [List.dropLast_concat] at hParent
  refine hParent.imp_right fun hAround => ?_
  -- The directory is not behind what is in it.
  have hLater := (List.pairwise_cons.mp (List.pairwise_append.mp h.ordered).2.1).1
  rcases List.mem_append.mp hAround with hFront | hBack
  · exact hFront
  · rcases List.mem_cons.mp hBack with hSame | hBack
    · exact absurd (Prod.mk.inj hSame).1 (by simp)
    · exact absurd List.dropLast_concat.symm (hLater _ hBack)

/-- The list gives what is below a directory, in some order. -/
def Carries (v : Volume) (top : InodeId) (found : List (List Text × Option Text)) : Prop :=
  ∀ names content, (names, content) ∈ found ↔
    names ≠ [] ∧ ∃ id, LeadsBy v top names id ∧ v.content? id = content

theorem carries_nil {v : Volume} {top : InodeId} (h : v.entries top = []) : Carries v top [] := by
  intro names content
  refine iff_of_false nofun ?_
  rintro ⟨hSome, id, hNames, _⟩
  cases hNames with
  | here => exact hSome rfl
  | down listed _ =>
      rw [h] at listed
      cases listed

/-- The last step of a way. -/
theorem LeadsBy.exists_parent {v : Volume} {top id : InodeId} {around : List Text} {name : Text}
    (h : LeadsBy v top (around ++ [name]) id) :
    ∃ directory, LeadsBy v top around directory ∧ (name, id) ∈ v.entries directory := by
  induction around generalizing top with
  | nil =>
      cases h with
      | down listed later =>
          cases later
          exact ⟨top, .here, listed⟩
  | cons other around ih =>
      cases h with
      | down listed later =>
          obtain ⟨directory, hAround, hListed⟩ := ih later
          exact ⟨directory, .down listed hAround, hListed⟩

section Walk

variable {v : Volume} (h : Forest [] v) (hNamed : ChildNamed v) {directory : InodeId}
  (hDirectory : v.Holds directory)
include h hNamed hDirectory

/-- A listed tree carries everything below the directory: names, kinds and contents. -/
theorem Forest.carries_treeBelow : Carries v directory (v.treeBelow directory) := by
  intro names content
  rw [treeBelow, byNames, List.mem_map]
  constructor
  · rintro ⟨⟨path, id⟩, hMem, hSame⟩
    obtain ⟨others, hRoute, hOthers⟩ := (h.mem_walk hNamed hDirectory).mp hMem
    obtain ⟨rfl, rfl⟩ := Prod.mk.inj hSame
    rw [hRoute.splitOn_eq]
    exact ⟨hRoute.ne_nil, id, hOthers, rfl⟩
  · rintro ⟨hSome, id, hNames, rfl⟩
    have hRoute : Path.IsRoute names (Text.join [chr '/'] names) := ⟨hSome, hNamed.of_leadsBy hNames, rfl⟩
    exact ⟨_, (h.mem_walk hNamed hDirectory).mpr ⟨names, hRoute, hNames⟩,
      Prod.ext hRoute.splitOn_eq rfl⟩

/-- No place is listed twice. -/
theorem Forest.nodup_treeBelow : ((v.treeBelow directory).map Prod.fst).Nodup := by
  have hKeys : (v.treeBelow directory).map Prod.fst =
      ((v.walk directory).map Prod.fst).map (Text.splitOn (chr '/')) := by
    rw [treeBelow, byNames, List.map_map, List.map_map]
    rfl
  rw [hKeys]
  refine List.Nodup.map (fun first second hSame => ?_) (h.nodup_walk_paths hNamed hDirectory)
  rw [← Text.join_splitOn (chr '/') first, hSame, Text.join_splitOn]

/-- Two lists of what is below a directory hold the same entries, each of them once. -/
theorem Forest.perm_treeBelow {found : List (List Text × Option Text)}
    (hCarries : Carries v directory found) (hNodup : (found.map Prod.fst).Nodup) :
    (v.treeBelow directory).Perm found := by
  refine (List.perm_ext_iff_of_nodup (h.nodup_treeBelow hNamed hDirectory).of_map hNodup.of_map).mpr ?_
  rintro ⟨names, content⟩
  exact (h.carries_treeBelow hNamed hDirectory names content).trans (hCarries names content).symm

/-- A walk meets a directory before what is in it, and every place once. -/
theorem Forest.arranged_treeBelow : Arranged (v.treeBelow directory) := by
  have hCarries := h.carries_treeBelow hNamed hDirectory
  refine ⟨fun entry hEntry => ?_, h.nodup_treeBelow hNamed hDirectory, fun entry hEntry => ?_, ?_⟩
  · obtain ⟨hSome, id, hNames, _⟩ := (hCarries entry.1 entry.2).mp hEntry
    exact ⟨hSome, hNamed.of_leadsBy hNames⟩
  · obtain ⟨hSome, id, hNames, _⟩ := (hCarries entry.1 entry.2).mp hEntry
    obtain ⟨around, name, hSplit⟩ := (List.eq_nil_or_concat' entry.1).resolve_left hSome
    rw [hSplit] at hNames ⊢
    rw [List.dropLast_concat, or_iff_not_imp_left]
    intro hAround
    obtain ⟨parent, hParent, hListed⟩ := hNames.exists_parent
    exact (hCarries around none).mpr
      ⟨hAround, parent, hParent, content?_eq_none (isDirectory_of_entry hListed)⟩
  · refine List.pairwise_map.mpr ((h.pairwise_walk hNamed hDirectory).imp_of_mem ?_)
    rintro ⟨path, id⟩ ⟨other, up⟩ hPath hOther hOutside hSame
    obtain ⟨names, hRoute, hNames⟩ := (h.mem_walk hNamed hDirectory).mp hPath
    obtain ⟨others, hOtherRoute, hOthers⟩ := (h.mem_walk hNamed hDirectory).mp hOther
    simp only [hRoute.splitOn_eq, hOtherRoute.splitOn_eq] at hSame hOutside
    obtain ⟨around, name, rfl⟩ := (List.eq_nil_or_concat' names).resolve_left hRoute.ne_nil
    rw [List.dropLast_concat] at hSame
    subst hSame
    obtain ⟨parent, hParent, hListed⟩ := hNames.exists_parent
    obtain rfl := h.leadsBy_unique hParent hOthers
    have hHeld := h.holds_of_leads hDirectory hOthers.leads
    have hAbove := (h.isAncestor_iff hHeld).mpr ⟨1, Leads.here.down hListed⟩
    rw [hAbove] at hOutside
    cases hOutside

end Walk

/-! ## Making one more entry -/

/-- Names lead from an inode to another one in one way only. -/
theorem Forest.names_unique {v : Volume} (h : Forest [] v) {top id : InodeId} {names others : List Text}
    (hTop : v.Holds top) (hNames : LeadsBy v top names id) (hOthers : LeadsBy v top others id) :
    names = others := by
  obtain ⟨front, hFront⟩ := h.exists_names hTop
  have hSame := (h.namesUp_eq (hFront.append hNames)).symm.trans (h.namesUp_eq (hFront.append hOthers))
  exact List.append_cancel_left (List.reverse_inj.mp hSame)

def bodyOf : Option Text → Body
  | none => .directory []
  | some content => .file content

theorem entries_bodyOf (now : Instant) (directory : InodeId) (name : Text) (content : Option Text) :
    (Inode.mk name (some directory) now now (bodyOf content)).entries = [] := by
  cases content <;> rfl

section Add

variable {v : Volume} (now : Instant) {directory : InodeId} {name : Text} (content : Option Text)

/-- A way in a volume with a new child was there before or ends at that child. -/
theorem leadsBy_of_add (hDirectory : v.isDirectory directory = true) {top id : InodeId}
    {names : List Text} (hTop : v.Holds top)
    (hNames : LeadsBy (v.add now directory name (bodyOf content)).2 top names id) (h : Forest [] v) :
    LeadsBy v top names id ∨
      ∃ front, LeadsBy v top front directory ∧ names = front ++ [name] ∧ id = v.slots.size := by
  have hHeld := holds_of_isDirectory hDirectory
  have hBare := entries_bodyOf now directory name content
  induction hNames with
  | here => exact Or.inl .here
  | @down top child id other names listed later ih =>
      rw [entries_add now hHeld name hBare, List.mem_append] at listed
      rcases listed with hBefore | hNew
      · refine (ih (h.entry _ _ _ hBefore).2.1).imp (LeadsBy.down hBefore) ?_
        rintro ⟨front, hFront, rfl, hId⟩
        exact ⟨other :: front, .down hBefore hFront, rfl, hId⟩
      · split at hNew
        · rename_i hSame
          subst hSame
          obtain ⟨rfl, rfl⟩ := Prod.mk.inj (List.mem_singleton.mp hNew)
          cases later with
          | here => exact Or.inr ⟨[], .here, rfl, rfl⟩
          | down again _ =>
              -- The new child has no children.
              rw [entries_add now hHeld _ hBare, entries_of_size_le (Nat.le_refl _),
                if_neg (Nat.ne_of_gt hHeld.lt)] at again
              cases again
        · cases hNew

theorem content?_add_self (hHeld : v.Holds directory) :
    (v.add now directory name (bodyOf content)).2.content? v.slots.size = content := by
  rw [content?, get?_add v now hHeld, if_pos rfl]
  cases content <;> rfl

/-- With a new child, the list of what is below a directory has one more entry. -/
theorem Forest.carries_add (h : Forest [] v) {top : InodeId} {found : List (List Text × Option Text)}
    {around : List Text} (hTop : v.Holds top) (hCarries : Carries v top found)
    (hAround : LeadsBy v top around directory) (hDirectory : v.isDirectory directory = true)
    (hFree : v.child? directory name = none) :
    Carries (v.add now directory name (bodyOf content)).2 top (found ++ [(around ++ [name], content)]) := by
  have hBare := entries_bodyOf now directory name content
  have hHeld := holds_of_isDirectory hDirectory
  have hMade := h.extended now hDirectory (child?_eq_none_iff.mp hFree) hBare
  have hMore := hMade.enlarged hDirectory
  have hKept : ∀ {names : List Text} {id : InodeId}, LeadsBy v top names id →
      LeadsBy (v.add now directory name (bodyOf content)).2 top names id := fun hNames =>
    hNames.keep fun d _ _ _ hListed _ => (hMore.grown hDirectory).entries d hListed
  intro names other
  rw [List.mem_append, List.mem_singleton, Prod.mk.injEq, hCarries]
  constructor
  · rintro (⟨hSome, id, hNames, rfl⟩ | ⟨rfl, rfl⟩)
    · exact ⟨hSome, id, hKept hNames, hMore.content?_eq hDirectory (h.holds_of_leads hTop hNames.leads).lt⟩
    · refine ⟨by simp, _, (hKept hAround).append (.down (hMade.mem_entries hDirectory) .here), ?_⟩
      exact content?_add_self now other hHeld
  · rintro ⟨hSome, id, hNames, rfl⟩
    rcases leadsBy_of_add now content hDirectory hTop hNames h with hBefore | ⟨front, hFront, rfl, rfl⟩
    · refine Or.inl ⟨hSome, id, hBefore, ?_⟩
      exact (hMore.content?_eq hDirectory (h.holds_of_leads hTop hBefore.leads).lt).symm
    · rw [h.names_unique hTop hFront hAround]
      exact Or.inr ⟨rfl, content?_add_self now content hHeld⟩

end Add

/-- A directory below the root that the list describes. -/
structure Imported (names : List Text) (top : InodeId) (found : List (List Text × Option Text))
    (v : Volume) : Prop where
  placed : Placed v names top
  childNamed : ChildNamed v
  carries : Carries v top found

section Imported

variable {v : Volume} {names around : List Text} {name : Text} {top : InodeId}
  {found : List (List Text × Option Text)} (h : Imported names top found v) (hJoins : Joins found around name)
include h hJoins

/-- The place of an entry that can be made is free. -/
theorem Imported.exists_place : ∃ directory, LeadsBy v top around directory ∧
    v.isDirectory directory = true ∧ v.child? directory name = none := by
  have hHeld := holds_of_isDirectory h.placed.isDirectory
  obtain ⟨directory, hAround, hDirectory⟩ : ∃ directory, LeadsBy v top around directory ∧
      v.isDirectory directory = true := by
    rcases hJoins.parent with rfl | hParent
    · exact ⟨top, .here, h.placed.isDirectory⟩
    · obtain ⟨_, directory, hAround, hContent⟩ := (h.carries around none).mp hParent
      have hId := h.placed.sound.forest.holds_of_leads hHeld hAround.leads
      exact ⟨directory, hAround, isDirectory_of_content?_eq_none hId hContent⟩
  refine ⟨directory, hAround, hDirectory, ?_⟩
  rw [Option.eq_none_iff_forall_ne_some]
  intro id hChild
  have hWay := hAround.append (.down (mem_entries_of_child? hChild) .here)
  exact hJoins.fresh (List.mem_map_of_mem ((h.carries _ _).mpr ⟨by simp, id, hWay, rfl⟩))

/-- One more entry is made. -/
theorem Imported.add (now : Instant) (content : Option Text) {directory : InodeId}
    (hAround : LeadsBy v top around directory) (hDirectory : v.isDirectory directory = true)
    (hFree : v.child? directory name = none) :
    Imported names top (found ++ [(around ++ [name], content)])
      (v.add now directory name (bodyOf content)).2 := by
  have hBare := entries_bodyOf now directory name content
  have hForest := h.placed.sound.forest
  have hAdded := hForest.add now hDirectory (child?_eq_none_iff.mp hFree) hBare
  have hGrown := hForest.grownBelow_add now ⟨_, hAround.leads⟩ hDirectory hJoins.childName hFree hBare
  exact ⟨h.placed.grown (h.placed.sound.grown hAdded.forest hAdded.grown) hGrown,
    hGrown.childNamed h.childNamed,
    hForest.carries_add now content (holds_of_isDirectory h.placed.isDirectory) h.carries hAround
      hDirectory hFree⟩

variable (hValid : ∀ name ∈ names, Path.IsChildName name) {path : Text}
  (hPath : Path.GoesOn names (around ++ [name]) path) (now : Instant)
include hValid hPath

/-- A directory is made under the path of its entry. -/
theorem Imported.exists_createDirectories : ∃ id w, v.createDirectories now path = (.ok id, w) ∧
    Imported names top (found ++ [(around ++ [name], none)]) w := by
  obtain ⟨directory, hAround, hDirectory, hFree⟩ := h.exists_place hJoins
  refine ⟨v.slots.size, _, ?_, h.add hJoins now none hAround hDirectory hFree⟩
  have hForest := h.placed.sound.forest
  have hWay := hForest.followAll hAround hJoins.aroundNames path
  obtain ⟨hMoves, hDown⟩ := Path.isValidName_iff.mp hJoins.childName.valid
  rw [hForest.createDirectories_through hPath h.placed.leadsBy hValid h.placed.isDirectory,
    enter_append [name] (enter_of_followAll now hWay hDirectory), enter, if_neg hMoves, if_neg hDown, hFree]
  rfl

/-- A file is written under the path of its entry. -/
theorem Imported.exists_writeFile (content : Text) :
    ∃ id w, v.writeFile now path content false = (content.measure.map fun _ => id, w) ∧
      Imported names top (found ++ [(around ++ [name], some content)]) w := by
  obtain ⟨directory, hAround, hDirectory, hFree⟩ := h.exists_place hJoins
  refine ⟨v.slots.size, _, ?_, h.add hJoins now (some content) hAround hDirectory hFree⟩
  have hForest := h.placed.sound.forest
  obtain ⟨front, rest, hParse, hFront, hRest⟩ := hPath.parse hJoins.childName.ne_nil
  have hFound : v.lookup front = .ok directory := by
    refine (hForest.lookup_through hFront h.placed.leadsBy hValid).mpr ⟨?_, fun _ => ?_⟩
    · rcases hRest with rfl | ⟨rfl, rfl⟩
      · exact hForest.followAll hAround hJoins.aroundNames front
      · cases hAround
        rfl
    · exact isFile_of_isDirectory hDirectory
  have hPlace : v.placeFor path = .ok (directory, name) :=
    placeFor_eq_ok.mpr ⟨front, hParse, hJoins.childName, hFound, hDirectory⟩
  have hCreated : v.create now path (.file content) = .ok (v.add now directory name (.file content)) := by
    simp only [create, hPlace, ok_bind, hFree]
    rfl
  rw [writeFile, resolve?_eq_none_of_placeFor hPlace hFree]
  dsimp only
  rw [createFile, hCreated]
  rfl

end Imported

end TreeShell.Volume
