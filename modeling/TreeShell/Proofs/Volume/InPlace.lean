import TreeShell.Proofs.Volume.Bisimulation
import TreeShell.Proofs.Volume.History

/-! The operations in place: one change after the other is made to a single volume, and a fault
leaves what was changed before it. On every sound volume they do what the operations on volumes as
values do. No change of them is followed by a fault, except where going along a path has left a
directory that it has made, and where a file has been created whose content has no bytes. -/
namespace TreeShell.Volume

/-- Work on a volume. What was done before a fault stays done. -/
abbrev Work := ExceptT Fault (StateM Volume)

namespace Work

/-- A question, whose fault is the fault of the work. -/
def consult {α : Type} (question : Volume → Except Fault α) : Work α := do
  match question (← get) with
  | .ok a => pure a
  | .error fault => throw fault

/-- Creates an inode and enters it into a directory. -/
def add (now : Instant) (directory : InodeId) (name : Text) (body : Body) : Work InodeId := do
  let id := (← get).slots.size
  modify fun v => (v.insert ⟨name, some directory, now, now, body⟩).2
  modify fun v => v.link now directory id name
  return id

/-- Creates an inode at a path where there is none. -/
def create (now : Instant) (path : Text) (body : Body) : Work InodeId := do
  let (directory, name) ← consult fun v => v.placeFor path
  if ((← get).child? directory name).isSome then throw (.path .alreadyExists path)
  add now directory name body

/-- Creates a file. It is in its place already when its size is asked for. -/
def createFile (now : Instant) (path content : Text) : Work InodeId := do
  let id ← create now path (.file content)
  let _ ← consult fun _ => content.measure
  return id

/-- Goes along the parts of a path, creating the directories that miss. -/
def enter (now : Instant) (path : Text) : List Text → InodeId → Work InodeId
  | [], current => return current
  | part :: parts, current => do
    let v ← get
    if Path.staysPut part then enter now path parts current
    else if part == Path.up then enter now path parts ((v.parentOf? current).getD current)
    else match v.child? current part with
      | none => do
        let made ← add now current part (.directory [])
        enter now path parts made
      | some found =>
        if v.isDirectory found then enter now path parts found
        else throw (.path .notDirectory path)

/-- Creates every missing directory on a path. -/
def createDirectories (now : Instant) (path : Text) : Work InodeId := do
  let v ← get
  enter now path (path.splitOn (chr '/')) (if Path.isAbsolute path then root else v.cwd)

def writeFile (now : Instant) (path content : Text) (append : Bool) : Work InodeId := do
  let v ← get
  match v.resolve? path with
  | none => createFile now path content
  | some found =>
    match v.content? found with
    | none => throw (.path .isDirectory path)
    | some old => do
      modify fun v => v.setContent now found (if append then old ++ content else content)
      return found

/-- Marks an inode as modified, or creates an empty file. -/
def touchPath (now : Instant) (path : Text) : Work InodeId := do
  match (← get).resolve? path with
  | none => createFile now path []
  | some found => do
    modify fun v => v.touch now found
    return found

/-- Takes an inode out of its directory and empties its slot and those below it. -/
def clear (now : Instant) (id : InodeId) : Work Unit := do
  modify fun v => v.unlink now id
  modify fun v => v.discard (v.subtree id)

/-- Removes an inode. The current directory is moved out of it first. -/
def remove (now : Instant) (path : Text) (recursive : Bool) : Work Unit := do
  let found ← consult fun v => v.lookup path
  if found == root then throw .rootRemoval
  if !((← get).entries found).isEmpty && !recursive then throw (.path .notEmpty path)
  modify fun v =>
    { v with cwd := if v.isAncestor found v.cwd then (v.parentOf? found).getD root else v.cwd }
  clear now found

/-- Moves an inode. A file in its way is removed first. -/
def move (now : Instant) (source target : Text) : Work InodeId := do
  let node ← consult fun v => v.lookup source
  if node == root then throw .rootMove
  let (directory, name) ← consult fun v => v.destination node target
  let v ← get
  if v.isAncestor node directory then throw (.moveIntoItself source target)
  match v.child? directory name with
  | some existing =>
    if existing == node then pure ()
    else if v.isDirectory existing then throw (.path .isDirectory target)
    else if v.isDirectory node then throw (.path .notDirectory target)
    else clear now existing
  | none => pure ()
  modify fun v => v.unlink now node
  modify fun v => v.link now directory node name
  return node

/-- Copies an inode into a directory, and then one child after the other into the copy. -/
def copyInto (now : Instant) : (bound : Nat) → (source directory : InodeId) → Text → Work InodeId
  | 0, _, directory, name => add now directory name (.directory [])
  | bound + 1, source, directory, name => do
    match (← get).content? source with
    | some content => add now directory name (.file content)
    | none => do
      let made ← add now directory name (.directory [])
      let children := (← get).entries source
      forM children fun (_, child) => do
        let _ ← copyInto now bound child made ((← get).nameOf child)
      return made

def copy (now : Instant) (source target : Text) (recursive : Bool) : Work InodeId := do
  let node ← consult fun v => v.lookup source
  if (← get).isDirectory node && !recursive then throw (.path .isDirectory source)
  let (directory, name) ← consult fun v => v.destination node target
  let v ← get
  if v.isDirectory node && v.isAncestor node directory then throw (.copyIntoItself source target)
  match v.child? directory name with
  | some existing =>
    match v.content? node, v.content? existing with
    | some content, some _ => do
      modify fun v => v.setContent now existing content
      return existing
    | _, _ => throw (.path .alreadyExists target)
  | none => copyInto now v.slots.size node directory name

def changeDirectory (path : Text) : Work Unit := do
  if path.isEmpty then modify fun v => { v with cwd := root }
  else do
    let found ← consult fun v => v.lookup path
    if !(← get).isDirectory found then throw (.path .notDirectory path)
    modify fun v => { v with cwd := found }

/-- Puts what a snapshot describes in the place of the tree. It is built aside. -/
def restore (now : Instant) (written : Snapshot) : Work Unit := do
  let built ← consult fun _ => written.toVolume now
  set built

end Work

def Operation.inPlace (now : Instant) : Operation → Work Reply
  | .createFile path content => return .inode (← Work.createFile now path content)
  | .createDirectory path => return .inode (← Work.create now path (.directory []))
  | .createDirectories path => return .inode (← Work.createDirectories now path)
  | .writeFile path content append => return .inode (← Work.writeFile now path content append)
  | .touch path => return .inode (← Work.touchPath now path)
  | .move source target => return .inode (← Work.move now source target)
  | .copy source target recursive => return .inode (← Work.copy now source target recursive)
  | .remove path recursive => do Work.remove now path recursive; return .nothing
  | .changeDirectory path => do Work.changeDirectory path; return .nothing
  | .restore written => do Work.restore now written; return .nothing
  | .reload => do
    Work.restore now (Snapshot.ofVolume (← get))
    return .snapshot (Snapshot.ofVolume (← get))
  | question => Work.consult fun v => (v.perform now question).1

/-! What is read in the middle of a change is what was there before it. -/

/-- A subtree is read off the children that are met in it. -/
theorem subtreeWithin_congr {v w : Volume} {bound : Nat} {id : InodeId}
    (h : ∀ steps x, Leads v id steps x → w.entries x = v.entries x) :
    w.subtreeWithin bound id = v.subtreeWithin bound id := by
  induction bound generalizing id with
  | zero => rfl
  | succ bound ih =>
      rw [subtreeWithin, subtreeWithin, h 0 id .here]
      refine congrArg _ (List.flatMap_congr fun entry hEntry => ih fun steps x hLeads => ?_)
      have hFirst : Leads v id 1 entry.2 := Leads.here.down hEntry
      exact h _ x (hFirst.trans hLeads)

/-- Taking an inode out of its directory changes nothing below it. -/
theorem Forest.subtree_unlink {v : Volume} {id : InodeId} (h : Forest [] v) (hId : v.Holds id)
    (hRoot : id ≠ root) (now : Instant) : (v.unlink now id).subtree id = v.subtree id := by
  obtain ⟨directory, hParent, hListed⟩ := h.exists_listed hId (by simpa using hRoot)
  have hApart : ∀ steps, ¬ Leads v id steps directory := by
    intro steps hLeads
    have hCycle := h.steps_eq_zero hId (hLeads.down hListed)
    omega
  have hNe : directory ≠ id := by
    rintro rfl
    exact hApart 0 .here
  have hLoose := relinked_unlink now (h.parent_isDirectory hParent) hParent hNe
  rw [subtree, subtree, hLoose.size]
  refine subtreeWithin_congr fun steps x hLeads => ?_
  have hOther : x ≠ directory := by
    rintro rfl
    exact hApart steps hLeads
  rw [hLoose.entries, if_neg hOther]

theorem unlink_withCwd (v : Volume) (cwd : InodeId) (now : Instant) (id : InodeId) :
    unlink { v with cwd := cwd } now id = { v.unlink now id with cwd := cwd } := by
  have hGet : get? { v with cwd := cwd } id = v.get? id := rfl
  rw [unlink, unlink, hGet]
  rcases v.get? id with _ | ⟨_, _ | _, _, _, _⟩ <;> rfl

namespace Work

/-- Work ends as an operation that gives nothing back but a fault when it fails; what it gives
otherwise is a result and a volume. -/
def Ends {α β : Type} (result : β → α × Volume) (work : Work α) (v : Volume)
    (outcome : Except Fault β) : Prop :=
  work.run.run v = match outcome with
    | .ok b => (.ok (result b).1, (result b).2)
    | .error fault => (.error fault, v)

/-- The result of an operation that gives a volume only. -/
def silently (w : Volume) : Unit × Volume := (⟨⟩, w)

section Ends

variable {α β γ : Type} {result : γ → β × Volume} {v : Volume}

theorem run_consult (question : Volume → Except Fault α) :
    (consult question).run.run v = (question v, v) := by
  rw [consult, run_get_bind]
  cases question v <;> rfl

/-- A question leaves the volume as it is, so the work goes on with its answer or ends in its fault.
-/
theorem Ends.consult {question : Volume → Except Fault α} {next : α → Work β}
    {f : α → Except Fault γ} (h : ∀ a, question v = .ok a → Ends result (next a) v (f a)) :
    Ends result (consult question >>= next) v (question v >>= f) := by
  unfold Ends
  rw [run_bind, run_consult]
  cases hAnswer : question v with
  | error fault => rfl
  | ok a => exact h a hAnswer

/-- A check that fails ends the work before anything was changed. -/
theorem Ends.check {c : Prop} [Decidable c] {fault : Fault} {next : PUnit → Work β}
    {f : PUnit → Except Fault γ} (h : ¬ c → Ends result (next ⟨⟩) v (f ⟨⟩)) :
    Ends result (if c then throw fault >>= next else next ⟨⟩) v
      (if c then throw fault >>= f else f ⟨⟩) := by
  split
  · rfl
  · rename_i hc
    exact h hc

theorem Ends.get {next : Volume → Work β} {outcome : Except Fault γ}
    (h : Ends result (next v) v outcome) : Ends result (get >>= next) v outcome := h

theorem Ends.settle {work : Work InodeId} {outcome : Except Fault (InodeId × Volume)}
    (h : Ends id work v outcome) : (do return .inode (← work) : Work Reply).run.run v = v.settle outcome := by
  unfold Ends at h
  rw [run_bind, h]
  rcases outcome with _ | ⟨_, _⟩ <;> rfl

theorem run_partly {work : Work InodeId} {made : Except Fault InodeId × Volume}
    (h : work.run.run v = made) : (do return .inode (← work) : Work Reply).run.run v = settlePartly made := by
  rw [run_bind, h]
  rcases made with ⟨_ | _, _⟩ <;> rfl

theorem Ends.settleSilently {work : Work Unit} {outcome : Except Fault Volume}
    (h : Ends silently work v outcome) :
    (do work; return .nothing : Work Reply).run.run v = v.settleSilently outcome := by
  unfold Ends at h
  rw [run_bind, h]
  cases outcome <;> rfl

end Ends

section Operations

variable {v : Volume} (now : Instant)

theorem run_add (directory : InodeId) (name : Text) (body : Body) :
    (add now directory name body).run.run v =
      (.ok (v.add now directory name body).1, (v.add now directory name body).2) := rfl

theorem ends_create (path : Text) (body : Body) :
    Ends id (create now path body) v (v.create now path body) := by
  refine .consult fun ⟨directory, name⟩ _ => .get ?_
  exact .check fun _ => rfl

/-- Creating a file in place is the same as creating it. -/
theorem run_createFile (path content : Text) :
    (createFile now path content).run.run v = v.createFile now path content := by
  have hCreate := ends_create (v := v) now path (.file content)
  unfold Ends at hCreate
  rw [createFile, run_bind, hCreate, Volume.createFile]
  rcases v.create now path (.file content) with fault | ⟨id, w⟩
  · rfl
  · dsimp only
    rw [run_bind, run_consult]
    cases content.measure <;> rfl

/-- Going along a path is in place already: the directories stay that were made before a fault. -/
theorem run_enter (path : Text) (parts : List Text) (current : InodeId) :
    (enter now path parts current).run.run v = Volume.enter now path parts current v := by
  induction parts generalizing v current with
  | nil => rfl
  | cons part parts ih =>
      rw [enter, run_get_bind, Volume.enter]
      split
      · exact ih current
      · split
        · exact ih _
        · cases v.child? current part with
          | none =>
              dsimp only
              rw [run_bind_ok (run_add now current part _)]
              exact ih _
          | some found =>
              dsimp only
              split
              · exact ih found
              · rfl

theorem run_createDirectories (path : Text) :
    (createDirectories now path).run.run v = v.createDirectories now path :=
  run_enter now path _ _

/-- Writing a file in place is the same as writing it. -/
theorem run_writeFile (path content : Text) (append : Bool) :
    (writeFile now path content append).run.run v = v.writeFile now path content append := by
  rw [writeFile, run_get_bind, Volume.writeFile]
  cases v.resolve? path with
  | none => exact run_createFile now path content
  | some found =>
      dsimp only
      cases v.content? found <;> rfl

theorem run_touchPath (path : Text) : (touchPath now path).run.run v = v.touchPath now path := by
  rw [touchPath, run_get_bind, Volume.touchPath]
  cases v.resolve? path with
  | none => exact run_createFile now path []
  | some found => rfl

theorem run_clear (h : Forest [] v) {id : InodeId} (hId : v.Holds id) (hRoot : id ≠ root) :
    (clear now id).run.run v = (.ok ⟨⟩, (v.unlink now id).discard (v.subtree id)) := by
  rw [← h.subtree_unlink hId hRoot now]
  rfl

theorem ends_move (h : Sound v) (source target : Text) :
    Ends id (move now source target) v (v.move now source target) := by
  refine .consult fun node hNode => ?_
  refine .check fun _ => ?_
  refine .consult fun ⟨directory, name⟩ hPlace => .get ?_
  refine .check fun hOutside => ?_
  cases hChild : v.child? directory name with
  | none => rfl
  | some existing =>
      obtain ⟨hTop, hHeld, _⟩ := h.forest.entry _ _ _ (mem_entries_of_child? hChild)
      have hClear := run_clear now h.forest hHeld (by simpa using hTop)
      dsimp only
      split
      · rfl
      · split
        · rfl
        · split
          · rfl
          · exact run_bind_ok hClear _

/-- The children of an inode are copied one after the other. What is read of a child in between is
what was there before the first one was copied. -/
theorem run_copyEach {bound : Nat} (names : InodeId → Text) {made : InodeId}
    (hOne : ∀ {v : Volume} {child : InodeId}, Forest [] v → v.isDirectory made = true →
      names child ∉ (v.entries made).map Prod.fst → Copyable v bound child made →
        (copyInto now bound child made (names child)).run.run v =
          (.ok (Volume.copyInto now bound v child made (names child)).1,
            (Volume.copyInto now bound v child made (names child)).2))
    (children : List (Text × InodeId)) {v : Volume} (h : Forest [] v)
    (hMade : v.isDirectory made = true)
    (hNames : ((v.entries made).map Prod.fst ++ children.map fun child => names child.2).Nodup)
    (hChildren : ∀ child ∈ children, Copyable v bound child.2 made ∧
      ∃ d, (names child.2, child.2) ∈ v.entries d) :
    (forM children fun (_, child) => do
        let _ ← copyInto now bound child made ((← get).nameOf child) : Work PUnit).run.run v =
      (.ok ⟨⟩, children.foldl
        (fun w (_, child) => (Volume.copyInto now bound w child made (names child)).2) v) := by
  induction children generalizing v with
  | nil => rfl
  | cons entry children ih =>
      obtain ⟨_, child⟩ := entry
      obtain ⟨⟨hCopyable, d, hListed⟩, hRest⟩ := List.forall_mem_cons.mp hChildren
      have hFree : names child ∉ (v.entries made).map Prod.fst := by
        intro hMem
        exact List.disjoint_of_nodup_append hNames hMem (by simp)
      have hMore := h.copyInto now bound child hMade hFree
      have hName := (h.entry d (names child) child hListed).2.2.1
      have hFirst : (do
          let w ← get
          let _ ← copyInto now bound child made (w.nameOf child)
          pure ⟨⟩ : Work PUnit).run.run v =
          (.ok ⟨⟩, (Volume.copyInto now bound v child made (names child)).2) := by
        rw [run_get_bind, hName, run_bind_ok (hOne h hMade hFree hCopyable)]
        rfl
      rw [List.forM_cons, run_bind_ok hFirst, List.foldl_cons]
      refine ih hMore.forest (hMore.grown.isDirectory made hMade)
        (by rw [hMore.names]; simpa using hNames) fun other hOther => ?_
      obtain ⟨hStill, e, hIn⟩ := hRest other hOther
      exact ⟨hStill.grown h hMore.grown, e, hMore.grown.entries e hIn⟩

/-- The copy of a directory is made before its children are read, and is not one of them. -/
theorem run_copyInto (bound : Nat) {v : Volume} {source directory : InodeId} {name : Text}
    (h : Forest [] v) (hDirectory : v.isDirectory directory = true)
    (hFree : name ∉ (v.entries directory).map Prod.fst) (hCopyable : Copyable v bound source directory) :
    (copyInto now bound source directory name).run.run v =
      (.ok (Volume.copyInto now bound v source directory name).1,
        (Volume.copyInto now bound v source directory name).2) := by
  induction bound generalizing v source directory name with
  | zero => rfl
  | succ bound ih =>
      rw [copyInto, run_get_bind, Volume.copyInto]
      cases v.content? source with
      | some content => rfl
      | none =>
          have hAdded := h.add now hDirectory hFree
            (show (Inode.mk name (some directory) now now (.directory [])).entries = [] from rfl)
          have hOther : source ≠ directory := by
            rintro rfl
            exact hCopyable.apart 0 .here
          have hSame := hAdded.grown.others source hCopyable.held hOther
          have hEach := run_copyEach now v.nameOf ih (v.entries source) hAdded.forest hAdded.isDirectory
            (by rw [hAdded.bare, h.childNames]; exact h.namesNodup source)
            fun child hChild => ⟨hCopyable.child h hAdded hChild, source, by
              rw [(h.entry source child.1 child.2 hChild).2.2.1, hSame]
              exact hChild⟩
          dsimp only
          rw [run_bind_ok (run_add now directory name _), run_get_bind, hSame, run_bind_ok hEach]
          rfl

theorem ends_copy (h : Sound v) (source target : Text) (recursive : Bool) :
    Ends id (copy now source target recursive) v (v.copy now source target recursive) := by
  refine .consult fun node hNode => .get ?_
  refine .check fun _ => ?_
  refine .consult fun ⟨directory, name⟩ hPlace => .get ?_
  refine .check fun hOutside => ?_
  have hHeld := h.holds_lookup hNode
  cases hChild : v.child? directory name with
  | some existing =>
      dsimp only
      cases v.content? node <;> cases v.content? existing <;> rfl
  | none =>
      have hKind := isDirectory_of_destination hPlace
      have hApart := h.forest.apart_of_outside hHeld hKind hOutside
      exact run_copyInto now v.slots.size h.forest hKind (child?_eq_none_iff.mp hChild)
        ⟨hHeld, h.forest.shallow hHeld, hApart⟩

theorem ends_remove (h : Sound v) (path : Text) (recursive : Bool) :
    Ends silently (remove now path recursive) v (v.remove now path recursive) := by
  refine .consult fun found hFound => ?_
  refine .check fun hRoot => .get ?_
  refine .check fun _ => ?_
  let cwd := if v.isAncestor found v.cwd then (v.parentOf? found).getD root else v.cwd
  have hClear := run_clear now (h.forest.withCwd cwd) (h.holds_lookup hFound) (by simpa using hRoot)
  have hSubtree : subtree { v with cwd := cwd } found = v.subtree found :=
    subtreeWithin_congr fun _ _ _ => rfl
  unfold Ends
  rw [run_modify_bind, hClear, hSubtree, unlink_withCwd]
  rfl

theorem ends_changeDirectory (path : Text) :
    Ends silently (changeDirectory path) v (v.changeDirectory path) := by
  rw [changeDirectory, Volume.changeDirectory]
  split
  · rfl
  · refine .consult fun found _ => .get ?_
    exact .check fun _ => rfl

theorem ends_restore (written : Snapshot) :
    Ends silently (restore now written) v (written.toVolume now) := by
  unfold Ends
  rw [restore, run_bind, run_consult]
  cases written.toVolume now <;> rfl

end Operations

end Work

open Work in
/-- On a sound volume an operation in place does what it does to volumes as values. -/
theorem Sound.run_inPlace {v : Volume} (h : Sound v) (now : Instant) (operation : Operation) :
    (operation.inPlace now).run.run v = v.perform now operation := by
  cases operation with
  | createFile path content => exact run_partly (run_createFile now path content)
  | createDirectory path => exact (ends_create now path (.directory [])).settle
  | createDirectories path => exact run_partly (run_createDirectories now path)
  | writeFile path content append => exact run_partly (run_writeFile now path content append)
  | touch path => exact run_partly (run_touchPath now path)
  | move source target => exact (ends_move now h source target).settle
  | copy source target recursive => exact (ends_copy now h source target recursive).settle
  | remove path recursive => exact (ends_remove now h path recursive).settleSilently
  | changeDirectory path => exact (ends_changeDirectory path).settleSilently
  | restore written => exact (ends_restore now written).settleSilently
  | reload =>
      have hRestore := ends_restore (v := v) now (Snapshot.ofVolume v)
      unfold Ends at hRestore
      rw [Operation.inPlace, run_get_bind, run_bind, hRestore, Volume.perform]
      cases (Snapshot.ofVolume v).toVolume now <;> rfl
  | lookup | resolve | read | walk | children | isAncestor | snapshot => exact run_consult _

/-- In a directory without children everything that misses on a path can be made. -/
theorem exists_enter_of_bare {v : Volume} (h : Forest [] v) (now : Instant) (path : Text)
    {parts : List Text} (hUp : Path.up ∉ parts) {current : InodeId}
    (hCurrent : v.isDirectory current = true) (hBare : v.entries current = []) :
    ∃ id w, enter now path parts current v = (.ok id, w) := by
  induction parts generalizing v current with
  | nil => exact ⟨current, v, rfl⟩
  | cons part parts ih =>
      obtain ⟨hPart, hRest⟩ := not_or.mp (fun hMem => hUp (List.mem_cons.mpr hMem))
      rw [enter]
      split
      · exact ih h hRest hCurrent hBare
      · rw [if_neg (by simpa using Ne.symm hPart)]
        have hChild : v.child? current part = none := by rw [child?, hBare]; rfl
        have hAdded := h.add now hCurrent (child?_eq_none_iff.mp hChild)
          (show (Inode.mk part (some current) now now (.directory [])).entries = [] from rfl)
        rw [hChild]
        exact ih hAdded.forest hRest hAdded.isDirectory hAdded.bare

/-- A path that does not go up ends at a file before anything has been made, or not at all. -/
theorem Forest.enter_eq_error {v w : Volume} (h : Forest [] v) {now : Instant} {path : Text}
    {parts : List Text} (hUp : Path.up ∉ parts) {current : InodeId}
    (hCurrent : v.isDirectory current = true) {fault : Fault}
    (hFault : enter now path parts current v = (.error fault, w)) : w = v := by
  induction parts generalizing current with
  | nil => cases hFault
  | cons part parts ih =>
      obtain ⟨hPart, hRest⟩ := not_or.mp (fun hMem => hUp (List.mem_cons.mpr hMem))
      rw [enter] at hFault
      split at hFault
      · exact ih hRest hCurrent hFault
      · rw [if_neg (by simpa using Ne.symm hPart)] at hFault
        split at hFault
        · rename_i hChild
          have hAdded := h.add now hCurrent (child?_eq_none_iff.mp hChild)
            (show (Inode.mk part (some current) now now (.directory [])).entries = [] from rfl)
          obtain ⟨id, u, hMade⟩ :=
            exists_enter_of_bare hAdded.forest now path hRest hAdded.isDirectory hAdded.bare
          dsimp only at hFault
          rw [hMade] at hFault
          cases hFault
        · split at hFault
          · rename_i hKind
            exact ih hRest hKind hFault
          · cases hFault
            rfl

theorem eq_of_settle_eq_error {v w : Volume} {outcome : Except Fault (InodeId × Volume)} {fault : Fault}
    (h : v.settle outcome = (.error fault, w)) : w = v := by
  cases outcome <;> cases h
  rfl

theorem eq_of_settleSilently_eq_error {v w : Volume} {outcome : Except Fault Volume} {fault : Fault}
    (h : v.settleSilently outcome = (.error fault, w)) : w = v := by
  cases outcome <;> cases h
  rfl

theorem eq_of_settlePartly_eq_error {made : Except Fault InodeId × Volume} {fault : Fault} {w : Volume}
    (h : settlePartly made = (.error fault, w)) : made = (.error fault, w) := by
  rcases made with ⟨_ | _, _⟩ <;> cases h
  rfl

/-- An inode that has been created is one that was not there before. -/
theorem Sound.ne_of_create {v w : Volume} (h : Sound v) {now : Instant} {path content : Text}
    {id : InodeId} (hw : v.create now path (.file content) = .ok (id, w)) : w ≠ v := by
  simp only [Volume.create, check_eq_ok, bind_eq_ok] at hw
  obtain ⟨⟨directory, name⟩, hPlace, hNew, hSame⟩ := hw
  have hAdded := h.forest.add now (isDirectory_of_placeFor hPlace)
    (child?_eq_none_iff.mp (by simpa using hNew))
    (show (Inode.mk name (some directory) now now (.file content)).entries = [] from rfl)
  have hListed := hAdded.listed
  rw [Except.ok.inj hSame] at hListed
  rintro rfl
  simp at hListed

/-- The path and the content of the file that an operation creates where there is nothing. -/
def Operation.newFile? : Operation → Option (Text × Text)
  | .createFile path content | .writeFile path content _ => some (path, content)
  | .touch path => some (path, [])
  | _ => none

/-- An operation has created a file, and then its content turns out to have no bytes. -/
def Operation.LeavesFile (operation : Operation) (now : Instant) (fault : Fault) (v w : Volume) : Prop :=
  ∃ path content id, operation.newFile? = some (path, content) ∧
    v.create now path (.file content) = .ok (id, w) ∧ content.measure = .error fault

/-- The creation of a file that ends in a fault has changed nothing, or has left the file. -/
theorem eq_or_leavesFile_of_createFile {v w : Volume} {now : Instant} {path content : Text}
    {fault : Fault} {operation : Operation} (hNew : operation.newFile? = some (path, content))
    (h : v.createFile now path content = (.error fault, w)) :
    w = v ∨ operation.LeavesFile now fault v w := by
  obtain ⟨other, _, hFailed⟩ | ⟨id, u, hCreated, hMade⟩ := createFile_cases v now path content
  · rw [hFailed] at h
    cases h
    exact .inl rfl
  · rw [hMade] at h
    cases hBytes : content.measure with
    | error other =>
        rw [hBytes] at h
        cases h
        exact .inr ⟨path, content, id, hNew, hCreated, hBytes⟩
    | ok size =>
        rw [hBytes] at h
        cases h

/-- An operation that ends in a fault has changed nothing, unless it went up from a directory that
it had made, or has left a file. -/
theorem Sound.eq_or_leavesFile {v w : Volume} (h : Sound v) {now : Instant}
    {operation : Operation} {fault : Fault}
    (hUp : ∀ path, operation = .createDirectories path → Path.up ∉ path.splitOn (chr '/'))
    (hFault : v.perform now operation = (.error fault, w)) :
    w = v ∨ operation.LeavesFile now fault v w := by
  cases operation with
  | createFile path content =>
      exact eq_or_leavesFile_of_createFile rfl (eq_of_settlePartly_eq_error hFault)
  | writeFile path content append =>
      have hMade : v.writeFile now path content append = (.error fault, w) :=
        eq_of_settlePartly_eq_error hFault
      rw [Volume.writeFile] at hMade
      split at hMade
      · exact eq_or_leavesFile_of_createFile rfl hMade
      · split at hMade <;> cases hMade
        exact .inl rfl
  | touch path =>
      have hMade : v.touchPath now path = (.error fault, w) := eq_of_settlePartly_eq_error hFault
      rw [Volume.touchPath] at hMade
      split at hMade
      · exact eq_or_leavesFile_of_createFile rfl hMade
      · cases hMade
  | createDirectories path =>
      have hStart : v.isDirectory (if Path.isAbsolute path then root else v.cwd) = true := by
        split
        · exact h.forest.rootDirectory
        · exact h.cwdDirectory
      exact .inl (h.forest.enter_eq_error (hUp path rfl) hStart (eq_of_settlePartly_eq_error hFault))
  | createDirectory | move | copy => exact .inl (eq_of_settle_eq_error hFault)
  | remove | changeDirectory | restore => exact .inl (eq_of_settleSilently_eq_error hFault)
  | lookup | resolve | read | walk | children | isAncestor | snapshot =>
      exact .inl (congrArg Prod.snd hFault).symm
  | reload =>
      rw [Volume.perform] at hFault
      split at hFault <;> cases hFault
      exact .inl rfl

/-- Whatever was done before, an operation that ends in a fault has changed nothing, also when it
makes one change after the other, exactly if it has not left a file whose content has no bytes;
directories that were made before a path goes up stay as well. -/
theorem unchanged_of_fault (start : Instant) (history : List (Instant × Operation)) {now : Instant}
    {operation : Operation} {fault : Fault} {w : Volume}
    (hUp : ∀ path, operation = .createDirectories path → Path.up ∉ path.splitOn (chr '/'))
    (hFault : (operation.inPlace now).run.run ((fresh start).after history) = (.error fault, w)) :
    (w = (fresh start).after history ↔
      ¬ operation.LeavesFile now fault ((fresh start).after history) w) ∧
      ((fresh start).after history).perform now operation = (.error fault, w) := by
  have hSound := (sound_fresh start).after history
  rw [hSound.run_inPlace] at hFault
  refine ⟨⟨?_, (hSound.eq_or_leavesFile hUp hFault).resolve_right⟩, hFault⟩
  rintro hSame ⟨path, content, id, _, hCreated, _⟩
  exact hSound.ne_of_create hCreated hSame

/-- A path that goes through a file, and one that has gone up from a directory before. -/
theorem unchanged_of_fault_file :
    let now := Instant.origin
    let history := [(now, Operation.createDirectories "/a"), (now, .createFile "/a/f" "hi")]
    let v := (fresh now).after history
    (∃ fault, v.perform now (.createDirectories "/a/f/b") = (.error fault, v) ∧
      ((Operation.createDirectories "/a/f/b").inPlace now).run.run v = (.error fault, v)) ∧
    ∃ fault w, v.perform now (.createDirectories "/b/../a/f/b") = (.error fault, w) ∧
      v.resolve? "/b" = none ∧ w.resolve? "/b" = some 3 := by
  intro now history v
  constructor
  · have hFails : ((Operation.createDirectories "/a/f/b").inPlace now |>.run.run v).1.toOption.isNone := by
      decide +kernel
    rcases hRun : ((Operation.createDirectories "/a/f/b").inPlace now).run.run v with ⟨fault | reply, w⟩
    · have hUp : ∀ path, Operation.createDirectories "/a/f/b" = .createDirectories path →
          Path.up ∉ path.splitOn (chr '/') := by
        rintro path ⟨⟩
        decide +kernel
      obtain ⟨hExact, hPerform⟩ := unchanged_of_fault now history hUp hRun
      obtain rfl : w = v := hExact.mpr fun ⟨_, _, _, hNew, _⟩ => nomatch hNew
      exact ⟨fault, hPerform, rfl⟩
    · rw [hRun] at hFails
      cases hFails
  · have hFails : (v.perform now (.createDirectories "/b/../a/f/b")).1.toOption.isNone := by
      decide +kernel
    have hMade : (v.perform now (.createDirectories "/b/../a/f/b")).2.resolve? "/b" = some 3 := by
      decide +kernel
    rcases hRun : v.perform now (.createDirectories "/b/../a/f/b") with ⟨fault | reply, w⟩ <;>
      rw [hRun] at hFails hMade
    · exact ⟨fault, w, rfl, by decide +kernel, hMade⟩
    · cases hFails

/-- A file whose content is a surrogate is refused, and is there then. -/
theorem exists_file_of_fault :
    ∃ (path content : Text) (fault : Fault) (w : Volume),
      (fresh .origin).perform .origin (.createFile path content) = (.error fault, w) ∧
        (fresh .origin).resolve? path = none ∧ w.readFile path = .ok content :=
  ⟨"/f", [.surrogate 0], .unencodable 0 [.surrogate 0], _, rfl, by decide +kernel, rfl⟩

end TreeShell.Volume
