import TreeShell.Proofs.Volume.Apart
import TreeShell.Proofs.Volume.Directories

/-! Going down from a directory. A path that leads through a directory and does not go up behind it
names something below that directory, whatever is there and whatever misses. What is made or written
under such a path is below the directory too, and everything else stays as it was. -/
namespace TreeShell

namespace Text

/-- A text whose last piece is known ends with that piece. -/
theorem exists_of_splitOn_eq_concat {sep : CodePoint} {t last : Text} {front : List Text}
    (h : t.splitOn sep = front ++ [last]) (hFront : front ≠ []) :
    ∃ before, t = before ++ sep :: last ∧ before.splitOn sep = front ∧ sep ∉ last := by
  have hSingle : ∀ piece ∈ front ++ [last], sep ∉ piece := fun piece hPiece =>
    not_mem_of_mem_splitOn (t := t) (h ▸ hPiece)
  obtain ⟨first, rest, rfl⟩ := List.exists_cons_of_ne_nil hFront
  refine ⟨join [sep] (first :: rest), ?_, ?_, hSingle last (by simp)⟩
  · rw [← join_splitOn sep t, h, join_append _ hFront (List.cons_ne_nil _ _)]
    simp [join]
  · exact splitOn_join fun piece hPiece => hSingle piece (List.mem_append_left _ hPiece)

end Text

namespace Path

/-- A path ends with the name behind its last slash. -/
theorem parse_append (front : Text) {name : Text} (hSome : name ≠ []) (hSingle : chr '/' ∉ name) :
    parse (front ++ chr '/' :: name) = (if front.isEmpty then [chr '/'] else front, name) := by
  have hBody : (front ++ chr '/' :: name).dropEndWhile (· == '/') = front ++ chr '/' :: name := by
    refine Text.dropEndWhile_eq_self fun c hLast => ?_
    rw [List.getLast?_append_of_ne_nil _ (List.cons_ne_nil _ _), List.getLast?_cons_of_ne_nil hSome] at hLast
    rw [beq_eq_false_iff_ne]
    rintro rfl
    exact hSingle (List.mem_of_getLast? hLast)
  have hBreak : (front ++ chr '/' :: name).breakOnLast? (chr '/') = some (front, name) := by
    have hReverse : (front ++ chr '/' :: name).reverse = name.reverse ++ chr '/' :: front.reverse := by simp
    rw [Text.breakOnLast?, hReverse, Text.breakOn?_append (by simpa using hSingle)]
    simp
  rw [parse, hBody, hBreak]
  cases front <;> rfl

/-- A path that is read from the root: through some names, and on by further parts. -/
structure GoesOn (names parts : List Text) (path : Text) : Prop where
  absolute : isAbsolute path = true
  splitOn_eq : path.splitOn (chr '/') = [] :: (names ++ parts)

section GoesOn

variable {names parts : List Text} {path : Text}

theorem GoesOn.ne_nil (h : GoesOn names parts path) : path ≠ [] := by
  rintro rfl
  exact absurd h.absolute (by decide)

/-- In front of its last name a path goes on from the same names; if there is nothing between them, it
is the root that stays. -/
theorem GoesOn.parse {last : Text} (h : GoesOn names (parts ++ [last]) path) (hLast : last ≠ []) :
    ∃ front rest, Path.parse path = (front, last) ∧ GoesOn names rest front ∧
      (rest = parts ∨ parts = [] ∧ rest = [[]]) := by
  have hPieces : path.splitOn (chr '/') = ([] :: (names ++ parts)) ++ [last] := by
    rw [h.splitOn_eq, List.cons_append, List.append_assoc]
  obtain ⟨before, rfl, hBefore, hSingle⟩ :=
    Text.exists_of_splitOn_eq_concat hPieces (List.cons_ne_nil _ _)
  rw [parse_append before hLast hSingle]
  cases before with
  | nil =>
      rw [Text.splitOn, List.cons.injEq] at hBefore
      obtain ⟨rfl, rfl⟩ := List.append_eq_nil_iff.mp hBefore.2.symm
      exact ⟨[chr '/'], [[]], rfl, ⟨rfl, rfl⟩, Or.inr ⟨rfl, rfl⟩⟩
  | cons c before => exact ⟨c :: before, parts, rfl, ⟨h.absolute, hBefore⟩, Or.inl rfl⟩

/-- Of a path that does not go up, the part in front of its last name does not either. -/
theorem GoesOn.parse_down {last : Text} (h : GoesOn names (parts ++ [last]) path) (hLast : last ≠ [])
    (hUp : up ∉ parts ++ [last]) :
    ∃ front rest, Path.parse path = (front, last) ∧ GoesOn names rest front ∧ up ∉ rest := by
  obtain ⟨front, rest, hParse, hFront, hRest⟩ := h.parse hLast
  refine ⟨front, rest, hParse, hFront, ?_⟩
  rcases hRest with rfl | ⟨_, rfl⟩
  · exact fun hMem => hUp (List.mem_append_left _ hMem)
  · decide

end GoesOn

end Path

namespace Volume

/-! ## Reading a path below a directory -/

/-- A path that is joined to that of an inode goes on from there. -/
theorem Forest.goesOn_append {v : Volume} (h : Forest [] v) {top : InodeId} {names : List Text}
    (hNames : LeadsBy v root names top) (hValid : ∀ name ∈ names, Path.IsChildName name) (below : Text) :
    Path.GoesOn names (below.splitOn (chr '/')) (Path.append (v.pathOf top) below) := by
  rw [h.pathOf_eq hNames]
  cases names with
  | nil => exact ⟨rfl, by rw [List.nil_append]; exact if_pos rfl⟩
  | cons name names =>
      have hRoute : Path.IsRoute (name :: names) (Text.join [chr '/'] (name :: names)) :=
        ⟨List.cons_ne_nil _ _, hValid, rfl⟩
      have hBody : Text.dropEndWhile (· == '/') (chr '/' :: Text.join [chr '/'] (name :: names)) =
          chr '/' :: Text.join [chr '/'] (name :: names) := by
        refine Text.dropEndWhile_eq_self fun c hLast => ?_
        rw [List.getLast?_cons_of_ne_nil hRoute.path_ne_nil] at hLast
        rw [beq_eq_false_iff_ne]
        rintro rfl
        exact hRoute.getLast?_ne hLast
      rw [Path.append, hBody]
      refine ⟨rfl, ?_⟩
      rw [Text.splitOn_append_sep, Text.splitOn, if_pos rfl, hRoute.splitOn_eq, List.cons_append]

/-- Going along a way in two parts. -/
theorem enter_append {now : Instant} {path : Text} {front : List Text} (back : List Text)
    {current next : InodeId} {v w : Volume} (hw : enter now path front current v = (.ok next, w)) :
    enter now path (front ++ back) current v = enter now path back next w := by
  induction front generalizing current v with
  | nil =>
      cases hw
      rfl
  | cons part front ih =>
      rw [enter] at hw
      rw [List.cons_append, enter]
      split at hw
      · rename_i hStay
        rw [if_pos hStay]
        exact ih hw
      · rename_i hMoves
        rw [if_neg hMoves]
        split at hw
        · rename_i hUp
          rw [if_pos hUp]
          exact ih hw
        · rename_i hDown
          rw [if_neg hDown]
          split at hw
          · exact ih hw
          · split at hw
            · rename_i hKind
              rw [if_pos hKind]
              exact ih hw
            · cases hw

section Through

variable {v : Volume} {names parts : List Text} {path : Text} {top : InodeId}
  (h : Forest [] v) (hPath : Path.GoesOn names parts path) (hNames : LeadsBy v root names top)
  (hValid : ∀ name ∈ names, Path.IsChildName name)
include h hPath hNames hValid

theorem Forest.followAll_through : (path.splitOn (chr '/')).foldlM (v.follow path) root =
    parts.foldlM (v.follow path) top := by
  rw [hPath.splitOn_eq, List.foldlM_cons, follow_nil, ok_bind, List.foldlM_append,
    h.followAll hNames hValid path, ok_bind]

/-- A path that goes through an inode leads where its further parts lead from there. -/
theorem Forest.lookup_through {id : InodeId} : v.lookup path = .ok id ↔
    parts.foldlM (v.follow path) top = .ok id ∧ (path.getLast? = some (chr '/') → v.isFile id = false) := by
  rw [lookup_eq_ok, Reaches, if_pos hPath.absolute, h.followAll_through hPath hNames hValid]
  exact and_congr_left fun _ => and_iff_right hPath.ne_nil

/-- Through a directory that is there, nothing is made but what its further parts name. -/
theorem Forest.createDirectories_through (hTop : v.isDirectory top = true) (now : Instant) :
    v.createDirectories now path = enter now path parts top v := by
  have hFront : ([] :: names).foldlM (v.follow path) root = .ok top := by
    rw [List.foldlM_cons, follow_nil, ok_bind]
    exact h.followAll hNames hValid path
  rw [createDirectories, if_pos hPath.absolute, hPath.splitOn_eq]
  exact enter_append parts (enter_of_followAll now hFront hTop)

end Through

/-- Parts that do not go up lead down. -/
theorem Below.followAll {v : Volume} {top current id : InodeId} {path : Text} {parts : List Text}
    (h : Below v top current) (hUp : Path.up ∉ parts)
    (hFound : parts.foldlM (v.follow path) current = .ok id) : Below v top id := by
  induction parts generalizing current with
  | nil =>
      cases hFound
      exact h
  | cons part parts ih =>
      rw [List.mem_cons, not_or] at hUp
      rw [List.foldlM_cons, bind_eq_ok] at hFound
      obtain ⟨next, hNext, hRest⟩ := hFound
      refine ih ?_ hUp.2 hRest
      rw [Volume.follow] at hNext
      split at hNext
      · cases hNext
        exact h
      · split at hNext
        · cases hNext
        · rw [if_neg (by simpa using Ne.symm hUp.1)] at hNext
          split at hNext
          · rename_i hChild
            cases hNext
            exact h.down (mem_entries_of_child? hChild)
          · cases hNext

/-! ## Making and writing below a directory -/

/-- A volume that has been added to and written in below an inode only. New children have names that a
path can lead through. -/
structure GrownBelow (top : InodeId) (v w : Volume) : Prop where
  holds : ∀ x, v.Holds x → w.Holds x
  isDirectory : ∀ x, v.Holds x → w.isDirectory x = v.isDirectory x
  inodes : ∀ x, v.Holds x → ¬ Below v top x → w.get? x = v.get? x
  entries : ∀ d, v.entries d ⊆ w.entries d
  listed : ∀ d name x, (name, x) ∈ w.entries d →
    (name, x) ∈ v.entries d ∨ ¬ v.Holds x ∧ Path.IsChildName name
  made : ∀ x, w.Holds x → v.Holds x ∨ Below w top x
  cwd : w.cwd = v.cwd

theorem Below.mono {v w : Volume} (hEntries : ∀ d, v.entries d ⊆ w.entries d) {top id : InodeId}
    (h : Below v top id) : Below w top id := by
  obtain ⟨steps, hLeads⟩ := h
  exact ⟨steps, hLeads.mono hEntries⟩

theorem GrownBelow.refl (top : InodeId) (v : Volume) : GrownBelow top v v :=
  ⟨fun _ hx => hx, fun _ _ => rfl, fun _ _ _ => rfl, fun _ => List.Subset.refl _,
    fun _ _ _ hListed => Or.inl hListed, fun _ hx => Or.inl hx, rfl⟩

section GrownBelow

variable {top : InodeId} {v w : Volume} (h : GrownBelow top v w)
include h

/-- Nothing that was there comes below the inode. -/
theorem GrownBelow.below_iff {x : InodeId} (hx : v.Holds x) :
    Below w top x ↔ Below v top x := by
  refine ⟨?_, Below.mono h.entries⟩
  rintro ⟨steps, hLeads⟩
  induction hLeads with
  | here => exact ⟨0, .here⟩
  | @down steps d x name _ listed ih =>
      have hBefore := (h.listed d name x listed).resolve_right fun hNew => hNew.1 hx
      exact (ih (holds_of_isDirectory (isDirectory_of_entry hBefore))).down hBefore

theorem GrownBelow.leadsBy {id x : InodeId} {names : List Text} (hNames : LeadsBy v id names x) :
    LeadsBy w id names x :=
  hNames.keep fun d _ _ _ hListed _ => h.entries d hListed

theorem GrownBelow.childNamed (hNamed : ChildNamed v) : ChildNamed w := fun d name x hListed =>
  (h.listed d name x hListed).elim (hNamed d name x) And.right

end GrownBelow

/-- Growth below one inode adds up. -/
theorem GrownBelow.trans {top : InodeId} {u v w : Volume} (first : GrownBelow top u v)
    (second : GrownBelow top v w) : GrownBelow top u w where
  holds x hx := second.holds x (first.holds x hx)
  isDirectory x hx := (second.isDirectory x (first.holds x hx)).trans (first.isDirectory x hx)
  inodes x hx hOut := by
    have hStillOut : ¬ Below v top x := fun hBelow => hOut ((first.below_iff hx).mp hBelow)
    exact (second.inodes x (first.holds x hx) hStillOut).trans (first.inodes x hx hOut)
  entries d := List.Subset.trans (first.entries d) (second.entries d)
  listed d name x hListed := by
    rcases second.listed d name x hListed with hMiddle | ⟨hNew, hName⟩
    · exact first.listed d name x hMiddle
    · exact Or.inr ⟨fun hx => hNew (first.holds x hx), hName⟩
  made x hx := by
    rcases second.made x hx with hMiddle | hBelow
    · exact (first.made x hMiddle).imp_right (Below.mono second.entries)
    · exact Or.inr hBelow
  cwd := second.cwd.trans first.cwd

/-- A child with a good name has been entered below the inode. -/
theorem Forest.grownBelow_add {v : Volume} (h : Forest [] v) (now : Instant) {top directory : InodeId}
    {name : Text} {body : Body} (hBelow : Below v top directory)
    (hDirectory : v.isDirectory directory = true) (hName : Path.IsChildName name)
    (hFree : v.child? directory name = none)
    (hBody : (Inode.mk name (some directory) now now body).entries = []) :
    GrownBelow top v (v.add now directory name body).2 := by
  have hMade := h.extended now hDirectory (child?_eq_none_iff.mp hFree) hBody
  have hMore := hMade.enlarged hDirectory
  have hEntries := (hMore.grown hDirectory).entries
  refine ⟨fun x hx => hMore.holds_of_holds hx, fun x hx => hMore.isDirectory_eq hDirectory hx.lt,
    fun x hx hOut => hMore.inodes x hx.lt ?_, hEntries, fun d other x hListed => ?_, fun x hx => ?_,
    hMore.cwd⟩
  · rintro rfl
    exact hOut hBelow
  · rw [entries_add now (holds_of_isDirectory hDirectory) name hBody, List.mem_append] at hListed
    refine hListed.imp_right fun hNew => ?_
    split at hNew
    · obtain ⟨rfl, rfl⟩ := Prod.mk.inj (List.mem_singleton.mp hNew)
      exact ⟨fun hx => Nat.lt_irrefl _ hx.lt, hName⟩
    · cases hNew
  · refine ((hMade.holds_iff h hDirectory).mp hx).imp_right fun hNew => ?_
    exact ((hBelow.mono hEntries).down (hMade.mem_entries hDirectory)).trans hNew

theorem grownBelow_setContent {v : Volume} (now : Instant) {top id : InodeId} {old : Text}
    (hBelow : Below v top id) (hOld : v.content? id = some old) (content : Text) :
    GrownBelow top v (v.setContent now id content) := by
  have hShape := sameShape_setContent now hOld content
  refine ⟨fun x hx => (hShape.holds x).mpr hx, fun x _ => hShape.isDirectory x, fun x _ hOut => ?_,
    fun d => by rw [hShape.entries]; exact List.Subset.refl _, fun d name x hListed => ?_,
    fun x hx => Or.inl ((hShape.holds x).mp hx), hShape.cwd⟩
  · refine (get?_update v id _ x).trans (if_neg ?_)
    rintro rfl
    exact hOut hBelow
  · rw [hShape.entries] at hListed
    exact Or.inl hListed

/-- Everything is below the root. -/
theorem Forest.below_root {v : Volume} (h : Forest [] v) {x : InodeId} (hx : v.Holds x) :
    Below v root x := by
  obtain ⟨top, hTop, steps, hLeads⟩ := h.underTop x hx
  rw [List.mem_singleton.mp hTop] at hLeads
  exact ⟨steps, hLeads⟩

/-- On a way that begins below an inode and does not go up, directories are made below that inode only,
also when it ends at a file. Going up leads out of everything but the root. -/
theorem Forest.grownBelow_enter {v : Volume} (h : Forest [] v) (now : Instant) (path : Text)
    {parts : List Text} {top current : InodeId} (hBelow : Below v top current)
    (hCurrent : v.isDirectory current = true) (hUp : Path.up ∈ parts → top = root)
    (hParts : ∀ part ∈ parts, chr '/' ∉ part) : GrownBelow top v (enter now path parts current v).2 := by
  induction parts generalizing v current with
  | nil => exact .refl top v
  | cons part parts ih =>
      obtain ⟨hPart, hRest⟩ := List.forall_mem_cons.mp hParts
      have hLater : Path.up ∈ parts → top = root := fun hMem => hUp (List.mem_cons_of_mem _ hMem)
      rw [enter]
      split
      · exact ih h hBelow hCurrent hLater hRest
      · rename_i hMoves
        split
        · rename_i hPartUp
          obtain rfl : top = root := hUp (by rw [beq_iff_eq.mp hPartUp]; exact List.mem_cons_self ..)
          have hAbove : v.isDirectory ((v.parentOf? current).getD current) = true := by
            cases hParent : v.parentOf? current with
            | none => exact hCurrent
            | some up => exact h.parent_isDirectory hParent
          exact ih h (h.below_root (holds_of_isDirectory hAbove)) hAbove hLater hRest
        · rename_i hDown
          have hName : Path.IsChildName part := ⟨Path.isValidName_iff.mpr ⟨hMoves, hDown⟩, hPart⟩
          split
          · rename_i hFree
            have hBare : (Inode.mk part (some current) now now (.directory [])).entries = [] := rfl
            have hFirst := h.grownBelow_add now hBelow hCurrent hName hFree hBare
            have hAdded := h.add now hCurrent (child?_eq_none_iff.mp hFree) hBare
            have hMade := h.extended now hCurrent (child?_eq_none_iff.mp hFree) hBare
            have hUnder := (hBelow.mono hFirst.entries).down (hMade.mem_entries hCurrent)
            exact hFirst.trans (ih hAdded.forest hUnder hAdded.isDirectory hLater hRest)
          · rename_i hChild
            split
            · rename_i hKind
              exact ih h (hBelow.down (mem_entries_of_child? hChild)) hKind hLater hRest
            · exact .refl top v

section Origin

variable {v : Volume} (h : Sound v) (now : Instant) (path : Text)
include h

/-- Wherever a path is read from, that is a directory. -/
theorem Sound.isDirectory_origin :
    v.isDirectory (if Path.isAbsolute path then root else v.cwd) = true := by
  split
  · exact h.forest.rootDirectory
  · exact h.cwdDirectory

theorem Sound.isDirectory_of_createDirectories {now : Instant} {path : Text} {w : Volume} {id : InodeId}
    (hw : v.createDirectories now path = (.ok id, w)) : w.isDirectory id = true :=
  (h.forest.follow_of_enter (h.isDirectory_origin path) hw).2.1

/-- No directory gets a name that a path cannot lead through, wherever it is made. -/
theorem Sound.childNamed_createDirectories (hNamed : ChildNamed v) :
    ChildNamed (v.createDirectories now path).2 := by
  have hOrigin := h.isDirectory_origin path
  have hPart : ∀ part ∈ path.splitOn (chr '/'), chr '/' ∉ part := fun _ => Text.not_mem_of_mem_splitOn
  have hGrown := h.forest.grownBelow_enter now path
    (h.forest.below_root (holds_of_isDirectory hOrigin)) hOrigin (fun _ => rfl) hPart
  exact hGrown.childNamed hNamed

end Origin

/-- A directory that names lead to from the root. -/
structure Placed (v : Volume) (names : List Text) (top : InodeId) : Prop where
  sound : Sound v
  leadsBy : LeadsBy v root names top
  isDirectory : v.isDirectory top = true

theorem Placed.grown {v w : Volume} {names : List Text} {top : InodeId} (h : Placed v names top)
    (hw : Sound w) (hGrown : GrownBelow top v w) : Placed w names top :=
  ⟨hw, hGrown.leadsBy h.leadsBy,
    (hGrown.isDirectory top (holds_of_isDirectory h.isDirectory)).trans h.isDirectory⟩

section Placed

variable {v : Volume} {names parts : List Text} {path : Text} {top : InodeId}
  (h : Placed v names top) (hPath : Path.GoesOn names parts path)
  (hValid : ∀ name ∈ names, Path.IsChildName name) (hUp : Path.up ∉ parts)
include h hPath hValid hUp

theorem Placed.below_of_lookup {id : InodeId} (hFound : v.lookup path = .ok id) : Below v top id :=
  Below.followAll ⟨0, .here⟩ hUp ((h.sound.forest.lookup_through hPath h.leadsBy hValid).mp hFound).1

/-- Directories on a path that goes on below an inode are made below it. -/
theorem Placed.grownBelow_createDirectories (now : Instant) :
    GrownBelow top v (v.createDirectories now path).2 := by
  have hPart : ∀ part ∈ parts, chr '/' ∉ part := fun part hMem =>
    Text.not_mem_of_mem_splitOn (t := path) (by rw [hPath.splitOn_eq]; simp [hMem])
  have hNever : Path.up ∈ parts → top = root := fun hMem => absurd hMem hUp
  rw [h.sound.forest.createDirectories_through hPath h.leadsBy hValid h.isDirectory]
  exact h.sound.forest.grownBelow_enter now path ⟨0, .here⟩ h.isDirectory hNever hPart

end Placed

/-- A file is written in its place, or entered into the directory in front of its name. -/
theorem Placed.grownBelow_writeFile {v : Volume} {names parts : List Text} {top : InodeId}
    (h : Placed v names top) {path last : Text} (hPath : Path.GoesOn names (parts ++ [last]) path)
    (hValid : ∀ name ∈ names, Path.IsChildName name) (hUp : Path.up ∉ parts ++ [last])
    (hLast : last ≠ []) (now : Instant) (content : Text) (append : Bool) :
    GrownBelow top v (v.writeFile now path content append).2 := by
  rcases writeFile_cases v now path content append with ⟨fault, hFailed⟩ | ⟨id, old, hFound, hOld, hSet⟩ |
    ⟨directory, name, _, hPlace, hFree, hNew⟩
  · rw [hFailed]
    exact .refl top v
  · rw [hSet]
    exact grownBelow_setContent now (h.below_of_lookup hPath hValid hUp hFound) hOld _
  · obtain ⟨front, hParse, hName, hFront, hDirectory⟩ := placeFor_eq_ok.mp hPlace
    obtain ⟨_, rest, hSplit, hGoesOn, hUpFront⟩ := hPath.parse_down hLast hUp
    obtain ⟨rfl, rfl⟩ := Prod.mk.inj (hParse.symm.trans hSplit)
    have hBelow := h.below_of_lookup hGoesOn hValid hUpFront hFront
    rw [hNew]
    exact h.sound.forest.grownBelow_add now hBelow hDirectory hName hFree
      (show (Inode.mk name (some directory) now now (.file content)).entries = [] from rfl)

end Volume

end TreeShell
