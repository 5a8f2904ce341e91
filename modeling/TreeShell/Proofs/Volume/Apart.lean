import TreeShell.Proofs.Volume.Move
import TreeShell.Proofs.Volume.Write

/-! Subtrees that share no inode. What is written, removed or moved below an inode touches only what
is below it, besides new inodes and the directory that it stands in. Hence it leaves every subtree
alone that shares no inode with that one, and the two share none afterwards; by induction so does
whatever is done below either of them. -/
namespace TreeShell.Volume

/-- An inode is another one or somewhere below it. -/
def Below (v : Volume) (top id : InodeId) : Prop := ∃ steps, Leads v top steps id

/-- Two inodes with nothing below both of them. Either may have been removed. -/
structure Apart (v : Volume) (first second : InodeId) : Prop where
  firstGiven : first < v.slots.size
  secondGiven : second < v.slots.size
  disjoint : ∀ id, Below v first id → ¬ Below v second id

/-- What is below an inode is what it was, and it is the same inodes. -/
structure Untouched (v w : Volume) (top : InodeId) : Prop where
  below : ∀ id, Below w top id ↔ Below v top id
  inodes : ∀ id, Below v top id → w.get? id = v.get? id

/-- A change below an inode. Elsewhere it touches only the directory that lists the inode and new
inodes, and it lists nothing that was not listed before but what is below the inode or new. -/
structure Local (v w : Volume) (top : InodeId) : Prop where
  size : v.slots.size ≤ w.slots.size
  inodes : ∀ id < v.slots.size, ¬ Below v top id → (∀ name, (name, top) ∉ v.entries id) →
    w.get? id = v.get? id
  entries : ∀ d name id, (name, id) ∈ w.entries d →
    (name, id) ∈ v.entries d ∨ Below v top id ∨ v.slots.size ≤ id

theorem Local.refl (v : Volume) (top : InodeId) : Local v v top :=
  ⟨Nat.le_refl _, fun _ _ _ _ => rfl, fun _ _ _ h => Or.inl h⟩

theorem Below.down {v : Volume} {top directory id : InodeId} {name : Text}
    (h : Below v top directory) (hListed : (name, id) ∈ v.entries directory) : Below v top id := by
  obtain ⟨steps, hLeads⟩ := h
  exact ⟨steps + 1, hLeads.down hListed⟩

theorem Below.trans {v : Volume} {top middle id : InodeId} (first : Below v top middle)
    (second : Below v middle id) : Below v top id := by
  obtain ⟨steps, hFirst⟩ := first
  obtain ⟨count, hSecond⟩ := second
  exact ⟨steps + count, hFirst.trans hSecond⟩

theorem Apart.symm {v : Volume} {first second : InodeId} (h : Apart v first second) :
    Apart v second first :=
  ⟨h.secondGiven, h.firstGiven, fun id hSecond hFirst => h.disjoint id hFirst hSecond⟩

theorem Forest.lt_of_below {v : Volume} (h : Forest [] v) {top id : InodeId}
    (hTop : top < v.slots.size) (hBelow : Below v top id) : id < v.slots.size := by
  obtain ⟨steps, hLeads⟩ := hBelow
  cases hLeads with
  | here => exact hTop
  | down _ listed => exact (h.entry _ _ _ listed).2.1.lt

/-- What is below an inode is that inode or has its directory below it. -/
theorem Forest.below_of_parent {v : Volume} (h : Forest [] v) {top directory id : InodeId}
    (hBelow : Below v top id) (hUp : v.parentOf? id = some directory) :
    id = top ∨ Below v top directory := by
  obtain ⟨steps, hLeads⟩ := hBelow
  cases hLeads with
  | here => exact Or.inl rfl
  | @down steps d _ _ prior listed =>
      obtain rfl : d = directory := Option.some.inj ((h.entry _ _ _ listed).2.2.2.symm.trans hUp)
      exact Or.inr ⟨steps, prior⟩

/-- Only what is below an inode and the directory that lists it have children below it. -/
theorem Forest.parentOf?_ne {v : Volume} (h : Forest [] v) {top id x : InodeId} (hBelow : Below v top id)
    (hOut : ¬ Below v top x) (hLists : ∀ name, (name, top) ∉ v.entries x) :
    v.parentOf? id ≠ some x := by
  intro hUp
  rcases h.below_of_parent hBelow hUp with rfl | hAbove
  · exact hLists _ (h.parentOf?_eq_some.mp hUp)
  · exact hOut hAbove

section Local

variable {v w : Volume} (hv : Forest [] v) {top other : InodeId} (h : Local v w top)
  (hApart : Apart v top other)
include hv h hApart

/-- A change of one subtree leaves the places outside of it untouched. -/
theorem Local.untouched : Untouched v w other := by
  have hInodes : ∀ id, Below v other id → w.get? id = v.get? id := by
    intro id hBelow
    refine h.inodes id (hv.lt_of_below hApart.secondGiven hBelow)
      (fun hTop => hApart.disjoint id hTop hBelow) ?_
    exact fun name hListed => hApart.disjoint top ⟨0, .here⟩ (hBelow.down hListed)
  refine ⟨fun id => ⟨?_, ?_⟩, hInodes⟩
  · rintro ⟨steps, hLeads⟩
    induction hLeads with
    | here => exact ⟨0, .here⟩
    | down _ listed ih =>
        rw [entries_congr (hInodes _ ih)] at listed
        exact ih.down listed
  · rintro ⟨steps, hLeads⟩
    induction hLeads with
    | here => exact ⟨0, .here⟩
    | @down steps d _ _ prior listed ih =>
        rw [← entries_congr (hInodes d ⟨steps, prior⟩)] at listed
        exact ih.down listed

/-- What comes below the inode was there before or is new. -/
theorem Local.apart : Apart w top other := by
  have hKept : ∀ id, Below w top id → Below v top id ∨ v.slots.size ≤ id := by
    rintro id ⟨steps, hLeads⟩
    induction hLeads with
    | here => exact Or.inl ⟨0, .here⟩
    | @down steps d id name _ listed ih =>
        rcases h.entries d name id listed with hListed | hBelow | hNew
        · rcases ih with hDirectory | hNew
          · exact Or.inl (hDirectory.down hListed)
          · rw [entries_of_size_le hNew] at hListed
            cases hListed
        · exact Or.inl hBelow
        · exact Or.inr hNew
  refine ⟨Nat.lt_of_lt_of_le hApart.firstGiven h.size, Nat.lt_of_lt_of_le hApart.secondGiven h.size, ?_⟩
  intro id hTop hBelow
  have hBefore := ((h.untouched hv hApart).below id).mp hBelow
  rcases hKept id hTop with hTop | hNew
  · exact hApart.disjoint id hTop hBefore
  · exact absurd (hv.lt_of_below hApart.secondGiven hBefore) (Nat.not_lt_of_le hNew)

end Local

/-! ## Operations below an inode -/

/-- Where children and parents agree, asking upwards and going down come to the same. -/
theorem Forest.below_iff {v : Volume} (h : Forest [] v) {top id : InodeId} (hTop : v.Holds top) :
    Below v top id ↔ v.isAncestor top id = true := (h.isAncestor_iff hTop).symm

theorem local_setContent {v : Volume} (now : Instant) {top id : InodeId} {old : Text}
    (hOld : v.content? id = some old) (hBelow : Below v top id) (content : Text) :
    Local v (v.setContent now id content) top := by
  have hShape := sameShape_setContent now hOld content
  refine ⟨Nat.le_of_eq hShape.size.symm, fun x _ hOut _ => ?_, fun d name x hListed => ?_⟩
  · refine (get?_update v id _ x).trans (if_neg ?_)
    rintro rfl
    exact hOut hBelow
  · rw [hShape.entries] at hListed
    exact Or.inl hListed

/-- A child that is added below an inode is a change below it. -/
theorem Extended.local {v w : Volume} {now : Instant} {top directory id : InodeId} {name : Text}
    (h : Extended v w now directory name id) (hDirectory : v.isDirectory directory = true)
    (hBelow : Below v top directory) : Local v w top := by
  refine ⟨(h.enlarged hDirectory).size, fun x hx hOut _ => ?_,
    fun d name x hListed => (h.others d name x hListed).imp_right Or.inr⟩
  refine h.inodes x hx ?_
  rintro rfl
  exact hOut hBelow

/-- A subtree that is cut off below an inode is a change below it. -/
theorem Severed.local {v w : Volume} (hv : Forest [] v) {top id : InodeId} (hId : v.Holds id)
    (h : Severed v w id) (hBelow : Below v top id) : Local v w top := by
  refine ⟨Nat.le_of_eq h.size.symm, fun x _ hOut hLists => ?_, fun d name x hListed => ?_⟩
  · refine get?_eq_of_holds ?_ fun hx => h.inodes x hx (hv.parentOf?_ne hBelow hOut hLists)
    rw [h.holds, and_iff_left_iff_imp]
    intro _
    rw [← Bool.not_eq_true, ← hv.below_iff hId]
    exact fun hUnder => hOut (hBelow.trans hUnder)
  · rw [h.entries d (holds_of_isDirectory (isDirectory_of_entry hListed))] at hListed
    exact Or.inl (List.mem_of_mem_filter hListed)

/-- A move inside of a subtree is a change of this subtree only. -/
theorem Relocated.local {v w : Volume} (hv : Forest [] v) {top node directory : InodeId} {name : Text}
    (h : Relocated v w node directory name) (hNode : Below v top node)
    (hDirectory : Below v top directory) : Local v w top := by
  refine ⟨Nat.le_of_eq h.size.symm, fun x _ hOut hLists => ?_, fun d other x hListed => ?_⟩
  · have hNe : x ≠ node ∧ x ≠ directory := by
      constructor <;> rintro rfl
      · exact hOut hNode
      · exact hOut hDirectory
    refine get?_eq_of_holds ?_ fun hx =>
      h.inodes x hx hNe.1 hNe.2 (hv.parentOf?_ne hNode hOut hLists)
    rw [h.holds, and_iff_left_iff_imp]
    intro _ hWay
    exact hOut (hDirectory.down (mem_entries_of_child? hWay.1))
  · by_cases hd : d = directory
    · subst hd
      rw [h.listed, List.mem_append, List.mem_singleton, Prod.mk.injEq] at hListed
      rcases hListed with hBefore | ⟨_, rfl⟩
      · exact Or.inl (List.mem_of_mem_filter hBefore)
      · exact Or.inr (Or.inl hNode)
    · rw [h.entries d (holds_of_isDirectory (isDirectory_of_entry hListed)) hd] at hListed
      exact Or.inl (List.mem_of_mem_filter hListed)

/-- A write, a removal or a move that is made below an inode: what it names is there, and so is the
directory that it enters something into. -/
inductive MadeBelow (v : Volume) (top : InodeId) : Operation → Prop where
  | write {path content : Text} {append : Bool}
      (file : ∀ id, v.lookup path = .ok id → Below v top id)
      (place : ∀ directory name, v.resolve? path = none →
        v.placeFor path = .ok (directory, name) → Below v top directory) :
      MadeBelow v top (.writeFile path content append)
  | remove {path : Text} {recursive : Bool} (inode : ∀ id, v.lookup path = .ok id → Below v top id) :
      MadeBelow v top (.remove path recursive)
  | move {source target : Text} (inode : ∀ id, v.lookup source = .ok id → Below v top id)
      (place : ∀ id directory name, v.lookup source = .ok id →
        v.destination id target = .ok (directory, name) → Below v top directory) :
      MadeBelow v top (.move source target)

/-- One such operation is a change below the inode, whether it succeeds or not. -/
theorem Sound.local_perform {v : Volume} (h : Sound v) {top : InodeId} {operation : Operation}
    (hMade : MadeBelow v top operation) (now : Instant) :
    Local v (v.perform now operation).2 top := by
  have hRefl := Local.refl v top
  cases hMade with
  | @write path content append file place =>
      change Local v (v.writeFile now path content append).2 top
      rcases writeFile_cases v now path content append with ⟨fault, hFailed⟩ |
        ⟨id, old, hFound, hOld, hSet⟩ | ⟨directory, name, hNone, hPlace, hFree, hNew⟩
      · rw [hFailed]
        exact hRefl
      · rw [hSet]
        exact local_setContent now hOld (file id hFound) _
      · have hDirectory := isDirectory_of_placeFor hPlace
        have hMade := h.forest.extended now hDirectory (child?_eq_none_iff.mp hFree)
          (show (Inode.mk name (some directory) now now (.file content)).entries = [] from rfl)
        rw [hNew]
        exact hMade.local hDirectory (place directory name hNone hPlace)
  | remove inode =>
      refine settleSilently_keeps (p := fun w => Local v w top) hRefl fun w hw => ?_
      obtain ⟨id, hFound, _, _, hSevered⟩ := h.exists_severed hw
      exact hSevered.local h.forest (h.holds_lookup hFound) (inode id hFound)
  | move inode place =>
      refine settle_keeps (p := fun w => Local v w top) hRefl fun id w hw => ?_
      obtain ⟨directory, name, hFound, hPlace, hRelocated⟩ := h.exists_relocated hw
      exact hRelocated.local h.forest (inode id hFound) (place id directory name hFound hPlace)

/-- Volumes that are come to from one with two subtrees apart: whatever is done below either of them,
and whatever else does not bring them together. -/
inductive Later (v : Volume) (first second : InodeId) : Volume → Prop where
  | start : Later v first second v
  | inside {u : Volume} {operation : Operation} (prior : Later v first second u) (now : Instant)
      (made : MadeBelow u first operation ∨ MadeBelow u second operation) :
      Later v first second (u.perform now operation).2
  | elsewhere {u : Volume} {operation : Operation} (prior : Later v first second u) (now : Instant)
      (apart : Apart (u.perform now operation).2 first second) :
      Later v first second (u.perform now operation).2

/-- From now on, nothing that is done below one of two inodes changes what is below the other. -/
def Independent (v : Volume) (first second : InodeId) : Prop :=
  ∀ u, Later v first second u → ∀ now operation,
    (MadeBelow u first operation → Untouched u (u.perform now operation).2 second) ∧
    (MadeBelow u second operation → Untouched u (u.perform now operation).2 first)

/-- Subtrees that are apart stay apart, since neither gets anything that was not there or new. -/
theorem Later.sound_apart {v u : Volume} {first second : InodeId} (hLater : Later v first second u)
    (h : Sound v) (hApart : Apart v first second) : Sound u ∧ Apart u first second := by
  induction hLater with
  | start => exact ⟨h, hApart⟩
  | inside _ now made ih =>
      obtain ⟨hSound, hBefore⟩ := ih
      refine ⟨hSound.perform now _, ?_⟩
      rcases made with hFirst | hSecond
      · exact (hSound.local_perform hFirst now).apart hSound.forest hBefore
      · exact ((hSound.local_perform hSecond now).apart hSound.forest hBefore.symm).symm
  | elsewhere _ now apart ih => exact ⟨ih.1.perform now _, apart⟩

/-- Subtrees with nothing in common are independent: what is done in one is not seen in the other.
-/
theorem Sound.independent {v : Volume} (h : Sound v) {first second : InodeId}
    (hApart : Apart v first second) : Independent v first second := by
  intro u hLater now operation
  obtain ⟨hSound, hNow⟩ := hLater.sound_apart h hApart
  constructor
  · exact fun hMade => (hSound.local_perform hMade now).untouched hSound.forest hNow
  · exact fun hMade => (hSound.local_perform hMade now).untouched hSound.forest hNow.symm

/-- In a tree, two inodes are apart when neither is below the other. -/
theorem Forest.apart {v : Volume} (h : Forest [] v) {first second : InodeId} (hFirst : v.Holds first)
    (hSecond : v.Holds second) (hOver : ¬ Below v first second) (hUnder : ¬ Below v second first) :
    Apart v first second := by
  refine ⟨hFirst.lt, hSecond.lt, ?_⟩
  rintro id ⟨steps, hLeads⟩ hBelow
  induction hLeads with
  | here => exact hUnder hBelow
  | @down steps directory id name prior listed ih =>
      rcases h.below_of_parent hBelow (h.entry _ _ _ listed).2.2.2 with rfl | hAbove
      · exact hOver ⟨_, prior.down listed⟩
      · exact ih hAbove

end TreeShell.Volume
