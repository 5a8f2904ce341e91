import TreeShell.Proofs.Volume.Tidy

/-! Paths and walks. In a volume whose children have names that a path can lead through, the path
of an inode leads to that inode, and a walk meets all that is below a directory once, each inode
under the path that leads to it from there. An inode with another name, or below one with another
name, is met by no path that is read from the root. -/
namespace TreeShell

namespace Path

theorem IsChildName.ne_nil {name : Text} (h : IsChildName name) : name ≠ [] := by
  rintro rfl
  exact absurd h.valid (by decide)

theorem IsChildName.ne_up {name : Text} (h : IsChildName name) : name ≠ up := by
  rintro rfl
  exact absurd h.valid (by decide)

theorem isChildName_iff {name : Text} :
    IsChildName name ↔ name ≠ [] ∧ chr '/' ∉ name ∧ name ≠ [chr '.'] ∧ name ≠ [chr '.', chr '.'] := by
  constructor
  · intro h
    have hValid := h.valid
    simp only [isValidName, staysPut, up, Bool.not_or, Bool.and_eq_true, Bool.not_eq_true',
      bne_iff_ne, beq_eq_false_iff_ne] at hValid
    exact ⟨h.ne_nil, h.single, hValid.1.2, hValid.2⟩
  · rintro ⟨hSome, hSingle, hDot, hUp⟩
    refine ⟨?_, hSingle⟩
    simp [isValidName, staysPut, up, hSome, hDot, hUp]

/-- Names that a path can lead through, and the path that is made of them. -/
structure IsRoute (names : List Text) (path : Text) : Prop where
  ne_nil : names ≠ []
  childNames : ∀ name ∈ names, IsChildName name
  path_eq : path = Text.join [chr '/'] names

section IsRoute

variable {names : List Text} {path : Text} (h : IsRoute names path)
include h

theorem IsRoute.splitOn_eq : path.splitOn (chr '/') = names := by
  rw [h.path_eq]
  obtain ⟨name, rest, rfl⟩ := List.exists_cons_of_ne_nil h.ne_nil
  exact Text.splitOn_join fun t ht => (h.childNames t ht).single

theorem IsRoute.path_ne_nil : path ≠ [] := by
  rintro rfl
  have hNames := h.splitOn_eq
  rw [Text.splitOn] at hNames
  exact (h.childNames [] (by simp [← hNames])).ne_nil rfl

theorem IsRoute.not_isAbsolute : Path.isAbsolute path = false := by
  rw [Path.isAbsolute, beq_eq_false_iff_ne]
  intro hFirst
  have hHead := Text.head?_splitOn hFirst
  rw [h.splitOn_eq] at hHead
  exact (h.childNames [] (List.mem_of_head? hHead)).ne_nil rfl

theorem IsRoute.getLast?_ne : path.getLast? ≠ some (chr '/') := by
  intro hLast
  have hEnd := Text.getLast?_splitOn hLast
  rw [h.splitOn_eq] at hEnd
  exact (h.childNames [] (List.mem_of_getLast? hEnd)).ne_nil rfl

end IsRoute

/-- The path of names that are followed from a place which `lead` leads to. -/
def under (lead : Text) (names : List Text) : Text :=
  Text.join [chr '/'] (if lead.isEmpty then names else lead :: names)

theorem under_nil (lead : Text) : under lead [] = lead := by
  cases lead <;> rfl

theorem under_cons {name : Text} (h : name ≠ []) (lead : Text) (names : List Text) :
    under lead (name :: names) = under (if lead.isEmpty then name else lead ++ chr '/' :: name) names := by
  have hName : name.isEmpty = false := by simpa using h
  cases lead with
  | nil => simp [under, hName]
  | cons c lead => cases names <;> simp [under, Text.join]

end Path

namespace Volume

/-- The names lead from one inode down to another. -/
inductive LeadsBy (v : Volume) : InodeId → (names : List Text) → InodeId → Prop where
  | here {id : InodeId} : LeadsBy v id [] id
  | down {top child id : InodeId} {name : Text} {names : List Text}
      (listed : (name, child) ∈ v.entries top) (later : LeadsBy v child names id) :
      LeadsBy v top (name :: names) id

/-- Ways by names are put together. -/
theorem LeadsBy.append {v : Volume} {top middle id : InodeId} {names more : List Text}
    (left : LeadsBy v top names middle) (right : LeadsBy v middle more id) :
    LeadsBy v top (names ++ more) id := by
  induction left with
  | here => exact right
  | down listed _ ih => exact .down listed (ih right)

theorem LeadsBy.leads {v : Volume} {top id : InodeId} {names : List Text}
    (h : LeadsBy v top names id) : Leads v top names.length id := by
  induction h with
  | here => exact .here
  | @down top child id name names listed _ ih =>
      have hFirst : Leads v top 1 child := Leads.here.down listed
      rw [List.length_cons, Nat.add_comm]
      exact hFirst.trans ih

/-- Every way down has names on it, one for each step. -/
theorem Leads.exists_names {v : Volume} {top id : InodeId} {steps : Nat}
    (h : Leads v top steps id) : ∃ names, names.length = steps ∧ LeadsBy v top names id := by
  induction h with
  | here => exact ⟨[], rfl, .here⟩
  | @down steps directory id name _ listed ih =>
      obtain ⟨names, hLength, hNames⟩ := ih
      exact ⟨names ++ [name], by simp [hLength], hNames.append (.down listed .here)⟩

/-- What a path ends with: behind a slash only a directory is found. -/
def arrive (v : Volume) (path : Text) (found : InodeId) : Except Fault InodeId :=
  if path.getLast? = some (chr '/') ∧ v.isFile found = true then .error (.path .notDirectory path)
  else .ok found

/-- A path is followed to its end and looked at there. -/
theorem lookupFrom_eq (v : Volume) (start : InodeId) {path : Text} (hPath : path ≠ []) :
    v.lookupFrom start path = (path.splitOn (chr '/')).foldlM (v.follow path)
      (if Path.isAbsolute path then root else v.startAt start) >>= v.arrive path := by
  have hSome : path.isEmpty = false := by simpa using hPath
  rw [lookupFrom, hSome]
  refine congrArg (bind _) (funext fun found => ?_)
  simp only [arrive, Bool.and_eq_true, beq_iff_eq]
  split <;> rfl

/-- When a path leads to an inode: its parts do, and a slash at the end asks for a directory. -/
theorem lookupFrom_eq_ok {v : Volume} {start found : InodeId} {path : Text} :
    v.lookupFrom start path = .ok found ↔ path ≠ [] ∧
      (path.splitOn (chr '/')).foldlM (v.follow path)
        (if Path.isAbsolute path then root else v.startAt start) = .ok found ∧
      (path.getLast? = some (chr '/') → v.isFile found = false) := by
  simp only [lookupFrom, check_eq_ok, bind_eq_ok, List.isEmpty_iff, Bool.and_eq_true,
    beq_iff_eq, not_and, Bool.not_eq_true]
  constructor
  · rintro ⟨hSome, reached, hReached, hKind, ⟨⟩⟩
    exact ⟨hSome, hReached, hKind⟩
  · rintro ⟨hSome, hReached, hKind⟩
    exact ⟨hSome, found, hReached, hKind, rfl⟩

theorem resolveFrom?_eq_some {v : Volume} {start found : InodeId} {path : Text} :
    v.resolveFrom? start path = some found ↔ v.lookupFrom start path = .ok found := by
  rw [resolveFrom?]
  cases v.lookupFrom start path <;> simp [Except.toOption]

theorem follow_nil (v : Volume) (path : Text) (current : InodeId) :
    v.follow path current [] = .ok current := rfl

/-- A name in a directory is followed to the inode that is listed under it. -/
theorem follow_name_iff {v : Volume} {path name : Text} {directory id : InodeId}
    (hName : Path.isValidName name = true) (hDirectory : v.isDirectory directory = true) :
    v.follow path directory name = .ok id ↔ v.child? directory name = some id := by
  obtain ⟨hMoves, hDown⟩ := Path.isValidName_iff.mp hName
  rw [follow, if_neg hMoves, hDirectory, if_neg (by decide), if_neg hDown]
  cases v.child? directory name <;> simp

/-- The path that is followed is only named in faults. -/
theorem follow_naming (v : Volume) (path other : Text) (current : InodeId) (part : Text) :
    v.follow path current part = (v.follow other current part).mapError (Fault.naming path) := by
  simp only [follow]
  split
  · rfl
  · split
    · rfl
    · split
      · rfl
      · split <;> rfl

/-- The path itself is used for nothing but the text of a fault. -/
theorem followAll_naming (v : Volume) (path other : Text) (start : InodeId) (parts : List Text) :
    parts.foldlM (v.follow path) start =
      (parts.foldlM (v.follow other) start).mapError (Fault.naming path) := by
  induction parts generalizing start with
  | nil => rfl
  | cons part parts ih =>
      rw [List.foldlM_cons, List.foldlM_cons, mapError_bind, follow_naming v path other]
      exact congrArg _ (funext ih)

theorem followAll_eq_ok_iff {v : Volume} (path other : Text) {start found : InodeId}
    {parts : List Text} : parts.foldlM (v.follow path) start = .ok found ↔
      parts.foldlM (v.follow other) start = .ok found := by
  rw [followAll_naming v path other, mapError_eq_ok]

theorem startAt_of_isDirectory {v : Volume} {id : InodeId} (h : v.isDirectory id = true) :
    v.startAt id = id := by
  rw [startAt, isFile_of_isDirectory h]
  rfl

theorem namesUp_succ {v : Volume} {id directory : InodeId}
    (hParent : v.parentOf? id = some directory) (bound : Nat) :
    v.namesUp (bound + 1) id = v.nameOf id :: v.namesUp bound directory := by
  rw [namesUp, nameOf]
  cases hNode : v.get? id with
  | none => simp [parentOf?, hNode] at hParent
  | some node =>
      obtain ⟨name, parent, _, _, _⟩ := node
      obtain rfl : parent = some directory := by simpa [parentOf?, hNode] using hParent
      rfl

theorem namesUp_of_parentOf?_eq_none {v : Volume} {id : InodeId} (h : v.parentOf? id = none)
    (bound : Nat) : v.namesUp bound id = [] := by
  cases bound with
  | zero => rfl
  | succ bound =>
      rw [namesUp]
      split
      · rename_i hNode
        simp [parentOf?, hNode] at h
      · rfl

/-- Every name on the way from the root to an inode is one that a path can lead through. -/
def Accessible (v : Volume) (id : InodeId) : Prop :=
  ∀ name ∈ v.namesUp v.slots.size id, Path.IsChildName name

section Forest

variable {v : Volume} (h : Forest [] v)
include h

/-- Looking upwards from the end of a way meets its names in reverse. -/
theorem Forest.namesUp_add {top id : InodeId} {names : List Text} (hNames : LeadsBy v top names id)
    (bound : Nat) : v.namesUp (names.length + bound) id = names.reverse ++ v.namesUp bound top := by
  induction hNames generalizing bound with
  | here => simp
  | @down top child id name names listed _ ih =>
      obtain ⟨_, _, hName, hParent⟩ := h.entry top name child listed
      rw [List.length_cons, Nat.add_right_comm, Nat.add_assoc, ih, namesUp_succ hParent, hName]
      simp

/-- The names on the way up from an inode are those that lead to it from the root. -/
theorem Forest.namesUp_eq {id : InodeId} {names : List Text} (hNames : LeadsBy v root names id) :
    v.namesUp v.slots.size id = names.reverse := by
  have hBound := h.steps_lt_of_top (List.mem_singleton_self _) hNames.leads
  obtain ⟨rest, hRest⟩ := Nat.exists_eq_add_of_le (Nat.le_of_lt hBound)
  rw [hRest, h.namesUp_add hNames, namesUp_of_parentOf?_eq_none h.rootParent, List.append_nil]

theorem Forest.pathOf_eq {id : InodeId} {names : List Text} (hNames : LeadsBy v root names id) :
    v.pathOf id = chr '/' :: Text.join [chr '/'] names := by
  rw [pathOf, h.namesUp_eq hNames, List.reverse_reverse]

theorem Forest.exists_names {id : InodeId} (hId : v.Holds id) : ∃ names, LeadsBy v root names id := by
  obtain ⟨top, hTop, steps, hLeads⟩ := h.underTop id hId
  obtain rfl := List.mem_singleton.mp hTop
  obtain ⟨names, _, hNames⟩ := hLeads.exists_names
  exact ⟨names, hNames⟩

theorem Forest.child?_eq {directory id : InodeId} {name : Text}
    (hListed : (name, id) ∈ v.entries directory) : v.child? directory name = some id := by
  cases hFound : v.child? directory name with
  | none => exact absurd (List.mem_map_of_mem hListed) (child?_eq_none_iff.mp hFound)
  | some other => rw [h.id_unique hListed (mem_entries_of_child? hFound)]

/-- Names that a path can lead through are followed one by one. -/
theorem Forest.followAll {top id : InodeId} {names : List Text} (hNames : LeadsBy v top names id)
    (hValid : ∀ name ∈ names, Path.IsChildName name) (path : Text) :
    names.foldlM (v.follow path) top = .ok id := by
  induction hNames with
  | here => rfl
  | @down top child id name names listed _ ih =>
      obtain ⟨hName, hRest⟩ := List.forall_mem_cons.mp hValid
      have hFirst : v.follow path top name = .ok child :=
        (follow_name_iff hName.valid (isDirectory_of_entry listed)).mpr (h.child?_eq listed)
      rw [List.foldlM_cons, hFirst, ok_bind]
      exact ih hRest

/-- From a directory, the names below it lead where they lead. -/
theorem Forest.lookupFrom_route {directory id : InodeId} {names : List Text} {path : Text}
    (hRoute : Path.IsRoute names path) (hNames : LeadsBy v directory names id)
    (hKind : v.isDirectory directory = true) : v.lookupFrom directory path = .ok id := by
  refine lookupFrom_eq_ok.mpr ⟨hRoute.path_ne_nil, ?_, fun hLast => absurd hLast hRoute.getLast?_ne⟩
  rw [hRoute.not_isAbsolute, hRoute.splitOn_eq, startAt_of_isDirectory hKind]
  exact h.followAll hNames hRoute.childNames path

theorem Forest.accessible_iff {id : InodeId} {names : List Text} (hNames : LeadsBy v root names id) :
    v.Accessible id ↔ ∀ name ∈ names, Path.IsChildName name := by
  rw [Accessible, h.namesUp_eq hNames]
  simp only [List.mem_reverse]

/-- The path of an accessible inode leads to it. -/
theorem Forest.lookupFrom_pathOf (start : InodeId) {id : InodeId} (hId : v.Holds id)
    (hOpen : v.Accessible id) : v.lookupFrom start (v.pathOf id) = .ok id := by
  obtain ⟨names, hNames⟩ := h.exists_names hId
  have hChildNames := (h.accessible_iff hNames).mp hOpen
  rw [h.pathOf_eq hNames]
  have hParts : Text.splitOn (chr '/') (chr '/' :: Text.join [chr '/'] names) =
      [] :: Text.splitOn (chr '/') (Text.join [chr '/'] names) := by
    rw [Text.splitOn, if_pos rfl]
  have hStay : v.follow (chr '/' :: Text.join [chr '/'] names) root [] = .ok root := rfl
  have hAbsolute : Path.isAbsolute (chr '/' :: Text.join [chr '/'] names) = true := rfl
  rw [lookupFrom_eq_ok, hParts, hAbsolute, if_pos rfl, List.foldlM_cons, hStay, ok_bind]
  refine ⟨List.cons_ne_nil _ _, ?_, ?_⟩
  · cases hNames with
    | here => rfl
    | @down _ child _ name rest listed later =>
        have hRoute : Path.IsRoute (name :: rest) _ := ⟨List.cons_ne_nil _ _, hChildNames, rfl⟩
        rw [hRoute.splitOn_eq]
        exact h.followAll (.down listed later) hChildNames _
  · intro hLast
    cases hNames with
    | here => exact isFile_of_isDirectory h.rootDirectory
    | @down _ child _ name rest listed later =>
        have hRoute : Path.IsRoute (name :: rest) _ := ⟨List.cons_ne_nil _ _, hChildNames, rfl⟩
        rw [List.getLast?_cons_of_ne_nil hRoute.path_ne_nil] at hLast
        exact absurd hLast hRoute.getLast?_ne

/-- A child can be addressed if its directory can and if its name is one that a path may hold. -/
theorem Forest.accessible_child {directory id : InodeId} {name : Text}
    (hListed : (name, id) ∈ v.entries directory) :
    v.Accessible id ↔ v.Accessible directory ∧ Path.IsChildName name := by
  obtain ⟨names, hNames⟩ := h.exists_names (holds_of_isDirectory (isDirectory_of_entry hListed))
  rw [h.accessible_iff (hNames.append (.down hListed .here)), h.accessible_iff hNames]
  simp [or_imp, forall_and]

/-- No part of a path leads from an accessible inode to one that is not. -/
theorem Forest.accessible_follow {path part : Text} {current found : InodeId} (hPart : chr '/' ∉ part)
    (hCurrent : v.Accessible current) (hFound : v.follow path current part = .ok found) :
    v.Accessible found := by
  rw [follow] at hFound
  split at hFound
  · cases hFound
    exact hCurrent
  · rename_i hMoves
    split at hFound
    · cases hFound
    · split at hFound
      · cases hFound
        cases hUp : v.parentOf? current with
        | none => exact hCurrent
        | some directory =>
            exact ((h.accessible_child (h.parentOf?_eq_some.mp hUp)).mp hCurrent).1
      · rename_i hDown
        split at hFound
        · rename_i hChild
          cases hFound
          have hName : Path.IsChildName part := ⟨Path.isValidName_iff.mpr ⟨hMoves, hDown⟩, hPart⟩
          exact (h.accessible_child (mem_entries_of_child? hChild)).mpr ⟨hCurrent, hName⟩
        · cases hFound

/-- A path that is read from the root leads to accessible inodes only. -/
theorem Forest.accessible_lookupFrom {start found : InodeId} {path : Text}
    (hAbsolute : Path.isAbsolute path = true) (hFound : v.lookupFrom start path = .ok found) :
    v.Accessible found := by
  have hParts : ∀ (parts : List Text) (current : InodeId), (∀ part ∈ parts, chr '/' ∉ part) →
      v.Accessible current → parts.foldlM (v.follow path) current = .ok found →
      v.Accessible found := by
    intro parts
    induction parts with
    | nil =>
        rintro current _ hCurrent ⟨⟩
        exact hCurrent
    | cons part parts ih =>
        intro current hSingle hCurrent hReached
        obtain ⟨hPart, hRest⟩ := List.forall_mem_cons.mp hSingle
        rw [List.foldlM_cons, bind_eq_ok] at hReached
        obtain ⟨next, hNext, hLater⟩ := hReached
        exact ih next hRest (h.accessible_follow hPart hCurrent hNext) hLater
  obtain ⟨_, hReached, _⟩ := lookupFrom_eq_ok.mp hFound
  rw [hAbsolute, if_pos rfl] at hReached
  refine hParts _ _ (fun _ hPart => Text.not_mem_of_mem_splitOn hPart) ?_ hReached
  exact (h.accessible_iff .here).mpr nofun

/-- An inode is found at its path exactly if it is accessible. -/
theorem Forest.lookupFrom_pathOf_iff (start : InodeId) {id : InodeId} (hId : v.Holds id) :
    v.lookupFrom start (v.pathOf id) = .ok id ↔ v.Accessible id :=
  ⟨h.accessible_lookupFrom rfl, h.lookupFrom_pathOf start hId⟩

end Forest

section Walk

variable {v : Volume} (h : Forest [] v)
include h

/-- What a walk yields: the inodes that names lead to, under the paths that are made of them. -/
theorem Forest.mem_walkWithin (hValid : ∀ d name x, (name, x) ∈ v.entries d → name ≠ [])
    {bound : Nat} {lead path : Text} {id x : InodeId} :
    (path, x) ∈ v.walkWithin bound lead id ↔
      ∃ names, names ≠ [] ∧ names.length ≤ bound ∧ LeadsBy v id names x ∧
        path = Path.under lead names := by
  induction bound generalizing lead path id with
  | zero =>
      simp only [walkWithin, List.not_mem_nil, false_iff]
      rintro ⟨names, hSome, hLength, _⟩
      exact hSome (List.length_eq_zero_iff.mp (Nat.le_zero.mp hLength))
  | succ bound ih =>
      rw [walkWithin, List.mem_flatMap]
      constructor
      · rintro ⟨⟨name, child⟩, hListed, hMem⟩
        have hName := (h.entry id name child hListed).2.2.1
        simp only [hName, List.mem_cons, Prod.mk.injEq] at hMem
        rcases hMem with ⟨rfl, rfl⟩ | hLater
        · refine ⟨[name], List.cons_ne_nil _ _, by simp, .down hListed .here, ?_⟩
          rw [Path.under_cons (hValid id name x hListed), Path.under_nil]
        · obtain ⟨names, _, hLength, hNames, rfl⟩ := ih.mp hLater
          refine ⟨name :: names, List.cons_ne_nil _ _, by simpa using hLength,
            .down hListed hNames, ?_⟩
          rw [Path.under_cons (hValid id name child hListed)]
      · rintro ⟨names, hSome, hLength, hNames, rfl⟩
        cases hNames with
        | here => exact absurd rfl hSome
        | @down _ child _ name names listed later =>
            refine ⟨(name, child), listed, ?_⟩
            have hName := (h.entry id name child listed).2.2.1
            simp only [hName]
            rw [Path.under_cons (hValid id name child listed), List.mem_cons]
            cases later with
            | here => exact Or.inl (by rw [Path.under_nil])
            | down next rest =>
                refine Or.inr (ih.mpr ?_)
                exact ⟨_, List.cons_ne_nil _ _, by simpa using hLength, .down next rest, rfl⟩

/-- Ways of one length that end at one inode begin at one inode. -/
theorem Forest.leads_top_unique {top other id : InodeId} {steps : Nat} (hTop : Leads v top steps id)
    (hOther : Leads v other steps id) : top = other := by
  induction hTop generalizing other with
  | here =>
      cases hOther
      rfl
  | down _ listed ih =>
      cases hOther with
      | down prior again =>
          obtain rfl := h.directory_unique listed again
          exact ih prior

/-- Nothing is below two children of one directory. -/
theorem Forest.child_unique {directory first second id : InodeId} {name other : Text}
    {steps count : Nat} (hFirst : (name, first) ∈ v.entries directory)
    (hSecond : (other, second) ∈ v.entries directory) (hLeads : Leads v first steps id)
    (hAgain : Leads v second count id) : first = second := by
  obtain ⟨top, hTop, depth, hDepth⟩ :=
    h.underTop directory (holds_of_isDirectory (isDirectory_of_entry hFirst))
  have hSame := (h.leads_unique hTop hTop ((hDepth.down hFirst).trans hLeads)
    ((hDepth.down hSecond).trans hAgain)).2
  obtain rfl : steps = count := by omega
  exact h.leads_top_unique hLeads hAgain

/-- On a walk nothing is met again, and nothing is met before a directory that it is below. -/
theorem Forest.pairwise_walkWithin (bound : Nat) (lead : Text) {id : InodeId} (hId : v.Holds id)
    (hValid : ∀ d name x, (name, x) ∈ v.entries d → name ≠ []) :
    (v.walkWithin bound lead id).Pairwise fun a b => ∀ steps, ¬ Leads v b.2 steps a.2 := by
  induction bound generalizing lead id with
  | zero => exact List.Pairwise.nil
  | succ bound ih =>
      have hBelow : ∀ {path other : Text} {child x : InodeId},
          (path, x) ∈ v.walkWithin bound other child → ∃ steps, Leads v child (steps + 1) x := by
        intro path other child x hMem
        obtain ⟨names, hSome, _, hNames, _⟩ := (h.mem_walkWithin hValid).mp hMem
        obtain ⟨name, rest, rfl⟩ := List.exists_cons_of_ne_nil hSome
        exact ⟨rest.length, hNames.leads⟩
      rw [walkWithin, List.pairwise_flatMap]
      constructor
      · rintro ⟨name, child⟩ hListed
        have hChild := (h.entry id name child hListed).2.1
        refine List.pairwise_cons.mpr ⟨?_, ih _ hChild⟩
        rintro ⟨path, x⟩ hMem steps hUp
        obtain ⟨count, hDown⟩ := hBelow hMem
        have hCycle := h.steps_eq_zero hChild (hDown.trans hUp)
        omega
      · have hDistinct := List.pairwise_map.mp (h.idsNodup id)
        refine hDistinct.imp_of_mem ?_
        rintro ⟨name, first⟩ ⟨other, second⟩ hFirst hSecond hNe a ha b hb steps hLeads
        have hBlock : ∀ {path : Text} {child : InodeId} {c : Text × InodeId},
            c ∈ (path, child) :: v.walkWithin bound path child → ∃ steps, Leads v child steps c.2 := by
          intro path child c hMem
          rcases List.mem_cons.mp hMem with rfl | hLater
          · exact ⟨0, .here⟩
          · obtain ⟨count, hDown⟩ := hBelow hLater
            exact ⟨count + 1, hDown⟩
        obtain ⟨count, hCount⟩ := hBlock ha
        obtain ⟨depth, hDepth⟩ := hBlock hb
        exact hNe (h.child_unique hFirst hSecond hCount (hDepth.trans hLeads))

/-- Names lead from an inode to one inode at most. -/
theorem Forest.leadsBy_unique {top id other : InodeId} {names : List Text}
    (hNames : LeadsBy v top names id) (hOther : LeadsBy v top names other) : id = other := by
  induction hNames with
  | here =>
      cases hOther
      rfl
  | down listed _ ih =>
      cases hOther with
      | down again later =>
          obtain rfl := h.id_unique listed again
          exact ih later

end Walk

/-- Every child has a name that a path can lead through. -/
def ChildNamed (v : Volume) : Prop :=
  ∀ directory name id, (name, id) ∈ v.entries directory → Path.IsChildName name

theorem ChildNamed.of_leadsBy {v : Volume} (hNamed : ChildNamed v) {top id : InodeId}
    {names : List Text} (hNames : LeadsBy v top names id) : ∀ name ∈ names, Path.IsChildName name := by
  induction hNames with
  | here => exact nofun
  | down listed _ ih => exact List.forall_mem_cons.mpr ⟨hNamed _ _ _ listed, ih⟩

section Named

variable {v : Volume} (h : Forest [] v) (hNamed : ChildNamed v)
include h hNamed

/-- A walk below a directory yields what names lead to, under the paths that are made of them. -/
theorem Forest.mem_walk {directory x : InodeId} {path : Text} (hDirectory : v.Holds directory) :
    (path, x) ∈ v.walk directory ↔
      ∃ names, Path.IsRoute names path ∧ LeadsBy v directory names x := by
  rw [walk, h.mem_walkWithin fun d name x hListed => (hNamed d name x hListed).ne_nil]
  constructor
  · rintro ⟨names, hSome, _, hNames, hPath⟩
    exact ⟨names, ⟨hSome, hNamed.of_leadsBy hNames, hPath⟩, hNames⟩
  · rintro ⟨names, hRoute, hNames⟩
    exact ⟨names, hRoute.ne_nil, Nat.le_of_lt (h.steps_lt hDirectory hNames.leads), hNames,
      hRoute.path_eq⟩

theorem Forest.holds_of_mem_walk {directory : InodeId} (hDirectory : v.Holds directory)
    {found : Text × InodeId} (hFound : found ∈ v.walk directory) : v.Holds found.2 := by
  obtain ⟨names, _, hNames⟩ := (h.mem_walk hNamed hDirectory).mp hFound
  exact h.holds_of_leads hDirectory hNames.leads

/-- A walk meets all that is below its directory. -/
theorem Forest.mem_map_walk {directory x : InodeId} (hDirectory : v.Holds directory) :
    x ∈ (v.walk directory).map Prod.snd ↔ x ≠ directory ∧ v.isAncestor directory x = true := by
  rw [h.isAncestor_iff hDirectory]
  constructor
  · intro hMem
    obtain ⟨⟨path, x⟩, hWalk, rfl⟩ := List.mem_map.mp hMem
    obtain ⟨names, hRoute, hNames⟩ := (h.mem_walk hNamed hDirectory).mp hWalk
    refine ⟨?_, names.length, hNames.leads⟩
    rintro rfl
    have hEmpty := h.steps_eq_zero hDirectory hNames.leads
    exact hRoute.ne_nil (List.length_eq_zero_iff.mp hEmpty)
  · rintro ⟨hOther, steps, hLeads⟩
    obtain ⟨names, _, hNames⟩ := hLeads.exists_names
    have hSome : names ≠ [] := by
      rintro rfl
      cases hNames
      exact hOther rfl
    have hRoute : Path.IsRoute names (Text.join [chr '/'] names) :=
      ⟨hSome, hNamed.of_leadsBy hNames, rfl⟩
    exact List.mem_map.mpr ⟨_, (h.mem_walk hNamed hDirectory).mpr ⟨names, hRoute, hNames⟩, rfl⟩

/-- A walk meets each inode once, and a directory before what is in it. -/
theorem Forest.pairwise_walk {directory : InodeId} (hDirectory : v.Holds directory) :
    (v.walk directory).Pairwise fun a b => v.isAncestor b.2 a.2 = false := by
  have hValid : ∀ d name x, (name, x) ∈ v.entries d → name ≠ [] :=
    fun d name x hListed => (hNamed d name x hListed).ne_nil
  refine (h.pairwise_walkWithin v.slots.size [] hDirectory hValid).imp_of_mem ?_
  intro a b _ hb hOutside
  rw [← Bool.not_eq_true, h.isAncestor_iff (h.holds_of_mem_walk hNamed hDirectory hb)]
  rintro ⟨steps, hLeads⟩
  exact hOutside steps hLeads

/-- A walk meets no inode twice. -/
theorem Forest.nodup_walk {directory : InodeId} (hDirectory : v.Holds directory) :
    ((v.walk directory).map Prod.snd).Nodup := by
  refine List.pairwise_map.mpr ((h.pairwise_walk hNamed hDirectory).imp_of_mem ?_)
  intro a b _ hb hOutside hSame
  have hSelf := (h.isAncestor_iff (h.holds_of_mem_walk hNamed hDirectory hb)).mpr ⟨0, .here⟩
  rw [hSame, hSelf] at hOutside
  cases hOutside

/-- No path is met twice on a walk, since it leads to one inode only. -/
theorem Forest.nodup_walk_paths {directory : InodeId} (hDirectory : v.Holds directory) :
    ((v.walk directory).map Prod.fst).Nodup := by
  refine List.pairwise_map.mpr ((List.pairwise_map.mp (h.nodup_walk hNamed hDirectory)).imp_of_mem ?_)
  rintro ⟨path, x⟩ ⟨other, y⟩ hx hy hNe rfl
  obtain ⟨names, hRoute, hNames⟩ := (h.mem_walk hNamed hDirectory).mp hx
  obtain ⟨others, hOther, hOthers⟩ := (h.mem_walk hNamed hDirectory).mp hy
  rw [← hOther.splitOn_eq, hRoute.splitOn_eq] at hOthers
  exact hNe (h.leadsBy_unique hNames hOthers)

theorem Forest.lookupFrom_walk {directory x : InodeId} {path : Text}
    (hKind : v.isDirectory directory = true) (hMem : (path, x) ∈ v.walk directory) :
    v.lookupFrom directory path = .ok x := by
  obtain ⟨names, hRoute, hNames⟩ := (h.mem_walk hNamed (holds_of_isDirectory hKind)).mp hMem
  exact h.lookupFrom_route hRoute hNames hKind

end Named

section Tidy

variable {clock : Instant → Prop} {v : Volume} (h : Tidy clock v) (hForest : Forest [] v)
include h hForest

theorem Tidy.childNamed : ChildNamed v := by
  intro directory name id hListed
  obtain ⟨hTop, hHeld, rfl, _⟩ := hForest.entry directory name id hListed
  exact h.isChildName hHeld (by simpa using hTop)

/-- The path of an inode leads to it, wherever it is read from. -/
theorem Tidy.lookupFrom_pathOf (start : InodeId) {id : InodeId} (hId : v.Holds id) :
    v.lookupFrom start (v.pathOf id) = .ok id := by
  refine hForest.lookupFrom_pathOf start hId fun name hName => ?_
  obtain ⟨names, hNames⟩ := hForest.exists_names hId
  rw [hForest.namesUp_eq hNames, List.mem_reverse] at hName
  exact (h.childNamed hForest).of_leadsBy hNames name hName

end Tidy

/-- Every inode is found at its path, and on the walk below each directory that is above it. -/
structure Addressed (v : Volume) : Prop where
  lookup_pathOf : ∀ id node, v.get? id = some node → v.lookup (v.pathOf id) = .ok id
  pathOf_inj : ∀ x y, v.Holds x → v.Holds y → v.pathOf x = v.pathOf y → x = y
  childName : ∀ id node, v.get? id = some node → id ≠ root →
    node.name ≠ [] ∧ chr '/' ∉ node.name ∧ node.name ≠ [chr '.'] ∧ node.name ≠ [chr '.', chr '.']
  mem_walk : ∀ d, v.isDirectory d = true → ∀ x,
    x ∈ (v.walk d).map Prod.snd ↔ x ≠ d ∧ v.isAncestor d x = true
  nodup_walk : ∀ d, v.isDirectory d = true → ((v.walk d).map Prod.snd).Nodup
  walk_ordered : ∀ d, v.isDirectory d = true →
    (v.walk d).Pairwise fun a b => v.isAncestor b.2 a.2 = false
  lookupFrom_walk : ∀ d, v.isDirectory d = true → ∀ path x, (path, x) ∈ v.walk d →
    v.lookupFrom d path = .ok x

/-- In a sound volume with valid names the path of an inode leads back to it, and a walk meets each
inode once. -/
theorem Tidy.addressed {clock : Instant → Prop} {v : Volume} (h : Tidy clock v) (hSound : Sound v) :
    Addressed v where
  lookup_pathOf id node hNode :=
    h.lookupFrom_pathOf hSound.forest v.cwd (holds_iff.mpr ⟨node, hNode⟩)
  pathOf_inj x y hx hy hSame := by
    have hLeft := h.lookupFrom_pathOf hSound.forest v.cwd hx
    have hRight := h.lookupFrom_pathOf hSound.forest v.cwd hy
    rw [hSame, hRight] at hLeft
    exact (Except.ok.inj hLeft).symm
  childName id node hNode hRoot := Path.isChildName_iff.mp ((h.fits id node hNode).childName hRoot)
  mem_walk d hKind x :=
    hSound.forest.mem_map_walk (h.childNamed hSound.forest) (holds_of_isDirectory hKind)
  nodup_walk d hKind :=
    hSound.forest.nodup_walk (h.childNamed hSound.forest) (holds_of_isDirectory hKind)
  walk_ordered d hKind :=
    hSound.forest.pairwise_walk (h.childNamed hSound.forest) (holds_of_isDirectory hKind)
  lookupFrom_walk d hKind path x hMem :=
    hSound.forest.lookupFrom_walk (h.childNamed hSound.forest) hKind hMem

end Volume

end TreeShell
