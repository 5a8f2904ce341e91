import TreeShell.Proofs.Volume.Relocate
import TreeShell.Volume.Operation

/-! Every volume that operations lead to is a tree. `WellFormed` says so in terms of the
inodes themselves; that it holds after every history follows from what one operation does,
whether it succeeds or not. -/
namespace TreeShell.Volume

/-- The parents lead from an inode to the root in so many steps. -/
inductive Climbs (v : Volume) : (steps : Nat) → (id : InodeId) → Prop where
  | here : Climbs v 0 root
  | up {steps : Nat} {id directory : InodeId} (parent : v.parentOf? id = some directory)
      (later : Climbs v steps directory) : Climbs v (steps + 1) id

/-- A volume is a tree of inodes: children and parents agree, every inode but the root is
listed once, and the parents of every inode lead to the root. -/
structure WellFormed (v : Volume) : Prop where
  rootDirectory : v.isDirectory root = true
  rootOnly : ∀ id node, v.get? id = some node → (node.parent = none ↔ id = root)
  cwdDirectory : v.isDirectory v.cwd = true
  entry : ∀ d name id, (name, id) ∈ v.entries d →
    ∃ node, v.get? id = some node ∧ node.name = name ∧ node.parent = some d
  namesNodup : ∀ d, ((v.entries d).map Prod.fst).Nodup
  listedOnce : ∀ id node, v.get? id = some node → id ≠ root →
    ∃ d, node.parent = some d ∧ v.isDirectory d = true ∧
      ((v.entries d).map Prod.snd).count id = 1 ∧ ∀ e ≠ d, id ∉ (v.entries e).map Prod.snd
  climbs : ∀ id node, v.get? id = some node → ∃ steps < v.slots.size, Climbs v steps id
  walksEnd : ∀ id node, v.get? id = some node → ∀ bound ≥ v.slots.size,
    v.namesUp bound id = v.namesUp v.slots.size id ∧
      ∀ ancestor, v.isAbove ancestor bound id = v.isAncestor ancestor id
  bounded : ∀ id node, v.get? id = some node → id < v.slots.size
  nextFree : ∀ node, v.get? (v.insert node).1 = none

theorem Leads.climbs {v : Volume} (h : Forest [] v) {id : InodeId} {steps : Nat}
    (hLeads : Leads v root steps id) : Climbs v steps id := by
  induction hLeads with
  | here => exact .here
  | down _ listed ih => exact .up (h.entry _ _ _ listed).2.2.2 ih

/-- The names on the way up are all there when the bound is not smaller than the way. -/
theorem Climbs.namesUp_eq {v : Volume} (hRoot : v.parentOf? root = none) {id : InodeId}
    {steps bound : Nat} (h : Climbs v steps id) (hBound : steps ≤ bound) :
    v.namesUp bound id = v.namesUp steps id := by
  induction h generalizing bound with
  | here =>
      cases bound with
      | zero => rfl
      | succ bound =>
          rw [namesUp, namesUp]
          split
          · rename_i hNode
            simp [parentOf?, hNode] at hRoot
          · rfl
  | @up steps id directory parent _ ih =>
      obtain ⟨bound, rfl⟩ : ∃ k, bound = k + 1 := ⟨bound - 1, by omega⟩
      rw [namesUp, namesUp]
      split
      · rename_i hNode
        simp only [parentOf?, hNode, Option.bind_eq_bind, Option.bind_some, Option.some.injEq] at parent
        rw [parent, ih (by omega)]
      · rfl

/-- The root is looked at last. -/
theorem Climbs.isAbove_eq {v : Volume} (hRoot : v.parentOf? root = none) (ancestor : InodeId)
    {id : InodeId} {steps bound : Nat} (h : Climbs v steps id) (hBound : steps < bound) :
    v.isAbove ancestor bound id = v.isAbove ancestor (steps + 1) id := by
  obtain ⟨bound, rfl⟩ : ∃ k, bound = k + 1 := ⟨bound - 1, by omega⟩
  induction h generalizing bound with
  | here => rw [isAbove, isAbove, hRoot]
  | @up steps id directory parent _ ih =>
      obtain ⟨bound, rfl⟩ : ∃ k, bound = k + 1 := ⟨bound - 1, by omega⟩
      have hUp (k : Nat) : v.isAbove ancestor (k + 1) id =
          (id == ancestor || v.isAbove ancestor k directory) := by rw [isAbove, parent]
      rw [hUp, hUp, ih bound (by omega)]

/-- A sound volume is a tree in terms of its inodes: what the forest says of ways down is said of
parents and children. -/
theorem Sound.wellFormed {v : Volume} (h : Sound v) : WellFormed v := by
  have hHolds : ∀ {id node}, v.get? id = some node → v.Holds id :=
    fun hNode => holds_iff.mpr ⟨_, hNode⟩
  have hParent : ∀ {id node}, v.get? id = some node → v.parentOf? id = node.parent :=
    fun hNode => by simp [parentOf?, hNode]
  have hClimbs : ∀ id node, v.get? id = some node → ∃ steps < v.slots.size, Climbs v steps id := by
    intro id node hNode
    obtain ⟨top, hTop, steps, hLeads⟩ := h.forest.underTop id (hHolds hNode)
    obtain rfl := List.mem_singleton.mp hTop
    exact ⟨steps, h.forest.steps_lt_of_top hTop hLeads, hLeads.climbs h.forest⟩
  refine ⟨h.forest.rootDirectory, ?_, h.cwdDirectory, ?_, h.forest.namesNodup, ?_, hClimbs, ?_, ?_, ?_⟩
  · intro id node hNode
    rw [← hParent hNode]
    constructor
    · intro hNone
      by_contra hRoot
      obtain ⟨d, hSome, _⟩ := h.forest.exists_listed (hHolds hNode) (by simpa using hRoot)
      rw [hNone] at hSome
      cases hSome
    · rintro rfl
      exact h.forest.rootParent
  · intro d name id hEntry
    obtain ⟨_, hHeld, hName, hUp⟩ := h.forest.entry d name id hEntry
    obtain ⟨node, hNode⟩ := holds_iff.mp hHeld
    refine ⟨node, hNode, ?_, ?_⟩
    · rw [← hName, nameOf, hNode]
    · rw [← hParent hNode, hUp]
  · intro id node hNode hRoot
    obtain ⟨d, hUp, hListed⟩ := h.forest.exists_listed (hHolds hNode) (by simpa using hRoot)
    refine ⟨d, (hParent hNode).symm.trans hUp, isDirectory_of_entry hListed, ?_, ?_⟩
    · exact List.count_eq_one_of_mem (h.forest.idsNodup d) (List.mem_map_of_mem hListed)
    · intro e hOther hMem
      obtain ⟨⟨name, _⟩, hEntry, rfl⟩ := List.mem_map.mp hMem
      exact hOther (h.forest.directory_unique hEntry hListed)
  · intro id node hNode bound hBound
    obtain ⟨steps, hSteps, hUp⟩ := hClimbs id node hNode
    have hRoot := h.forest.rootParent
    refine ⟨?_, fun ancestor => ?_⟩
    · rw [hUp.namesUp_eq hRoot (show steps ≤ bound by omega), hUp.namesUp_eq hRoot (Nat.le_of_lt hSteps)]
    · rw [isAncestor, hUp.isAbove_eq hRoot ancestor (by omega), hUp.isAbove_eq hRoot ancestor hSteps]
  · exact fun id node hNode => (hHolds hNode).lt
  · exact fun node => get?_size_le (Nat.le_refl _)

/-- What holds of a volume and of every result of a change holds whether it fails or not. -/
theorem settle_keeps {p : Volume → Prop} {v : Volume} (h : p v)
    {outcome : Except Fault (InodeId × Volume)}
    (hOutcome : ∀ id w, outcome = .ok (id, w) → p w) : p (v.settle outcome).2 := by
  cases outcome with
  | error fault => exact h
  | ok result => exact hOutcome result.1 result.2 rfl

theorem settleSilently_keeps {p : Volume → Prop} {v : Volume} (h : p v)
    {outcome : Except Fault Volume} (hOutcome : ∀ w, outcome = .ok w → p w) :
    p (v.settleSilently outcome).2 := by
  cases outcome with
  | error fault => exact h
  | ok w => exact hOutcome w rfl

/-- One operation keeps a volume sound, also when it fails. -/
theorem Sound.perform {v : Volume} (h : Sound v) (now : Instant) (operation : Operation) :
    Sound (v.perform now operation).2 := by
  cases operation with
  | createFile path content => exact h.createFile now path content
  | createDirectory path => exact settle_keeps h fun _ _ hw => h.create (fun _ _ => rfl) hw
  | createDirectories path => exact h.createDirectories now path
  | writeFile path content append => exact h.writeFile now path content append
  | touch path => exact h.touchPath now path
  | move source target => exact settle_keeps h fun _ _ hw => h.move hw
  | copy source target recursive => exact settle_keeps h fun _ _ hw => h.copy hw
  | remove path recursive => exact settleSilently_keeps h fun _ hw => h.remove hw
  | changeDirectory path => exact settleSilently_keeps h fun _ hw => h.changeDirectory hw
  | restore written => exact settleSilently_keeps h fun _ hw => Snapshot.sound_toVolume hw
  | reload =>
      rw [Volume.perform]
      split
      · rename_i hw
        exact Snapshot.sound_toVolume hw
      · exact h
  | lookup path => exact h
  | resolve path start => exact h
  | read path => exact h
  | walk path lead => exact h
  | children path => exact h
  | isAncestor ancestor path => exact h
  | snapshot path => exact h

/-- The volume after operations, each at its time. -/
def after (v : Volume) (history : List (Instant × Operation)) : Volume :=
  history.foldl (fun v (now, operation) => (v.perform now operation).2) v

theorem Sound.after {v : Volume} (h : Sound v) (history : List (Instant × Operation)) :
    Sound (v.after history) := by
  induction history generalizing v with
  | nil => exact h
  | cons step history ih => exact ih (h.perform step.1 step.2)

/-- The volumes that operations lead to from a new one, whatever snapshots are read. -/
def Reachable (v : Volume) : Prop := ∃ start history, (fresh start).after history = v

theorem reachable_after (start : Instant) (history : List (Instant × Operation)) :
    Reachable ((fresh start).after history) := ⟨start, history, rfl⟩

theorem Reachable.sound {v : Volume} (h : Reachable v) : Sound v := by
  obtain ⟨start, history, rfl⟩ := h
  exact (sound_fresh start).after history

/-- Whatever is done to a new volume, it stays a tree. -/
theorem wellFormed_after (start : Instant) (history : List (Instant × Operation)) :
    WellFormed ((fresh start).after history) :=
  ((sound_fresh start).after history).wellFormed

end TreeShell.Volume
