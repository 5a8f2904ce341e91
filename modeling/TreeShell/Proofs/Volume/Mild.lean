import TreeShell.Proofs.Mild
import TreeShell.Proofs.Volume.Create
import TreeShell.Shell.Redirect
import TreeShell.Volume.Relocate

/-! The faults of a volume are about paths, or about a content that has no bytes. -/
namespace TreeShell.Volume

theorem mild_measure (content : Text) : Mild content.measure := by
  rw [Text.measure]
  split
  · exact .error rfl
  · exact .ok _

theorem mild_size (node : Inode) : Mild node.size := by
  rw [Inode.size]
  split
  · exact mild_measure _
  · exact .ok _

theorem mild_follow (v : Volume) (path : Text) (current : InodeId) (part : Text) :
    Mild (v.follow path current part) := by
  rw [follow]
  split
  · exact .ok _
  · split
    · exact .error rfl
    · split
      · exact .ok _
      · split
        · exact .ok _
        · exact .error rfl

theorem mild_lookupFrom (v : Volume) (start : InodeId) (path : Text) : Mild (v.lookupFrom start path) := by
  rw [lookupFrom]
  refine .check rfl (.bind (.foldlM (v.mild_follow path) _ _) ?_)
  intro found
  exact .check rfl (.ok found)

theorem mild_lookup (v : Volume) (path : Text) : Mild (v.lookup path) := v.mild_lookupFrom v.cwd path

theorem mild_placeFor (v : Volume) (path : Text) : Mild (v.placeFor path) := by
  rw [placeFor]
  refine .check rfl (.bind (v.mild_lookup _) ?_)
  intro parent
  exact .check rfl (.ok _)

theorem mild_changeDirectory (v : Volume) (path : Text) : Mild (v.changeDirectory path) := by
  rw [changeDirectory]
  split
  · exact .ok _
  · refine .bind (v.mild_lookup path) ?_
    intro found
    exact .check rfl (.ok _)

theorem mild_create (v : Volume) (now : Instant) (path : Text) (body : Body) :
    Mild (v.create now path body) := by
  rw [create]
  refine .bind (v.mild_placeFor path) ?_
  intro place
  exact .check rfl (.ok _)

/-- Entering parts of a path can find a file where a directory is needed, which is a fault of the
operation. -/
theorem mild_enter (now : Instant) (path : Text) (parts : List Text) (current : InodeId) (v : Volume) :
    Mild (enter now path parts current v).1 := by
  induction parts generalizing current v with
  | nil => exact .ok current
  | cons part parts ih =>
      rw [enter]
      split
      · exact ih current v
      · split
        · exact ih _ v
        · split
          · exact ih _ _
          · split
            · exact ih _ v
            · exact .error rfl

theorem mild_createFile (v : Volume) (now : Instant) (path content : Text) :
    Mild (v.createFile now path content).1 := by
  have hCreate := v.mild_create now path (.file content)
  obtain ⟨fault, hFault, hFailed⟩ | ⟨id, w, _, hMade⟩ := createFile_cases v now path content
  · rw [hFailed]
    exact .error (hCreate fault hFault)
  · rw [hMade]
    exact (mild_measure content).map _

theorem mild_writeFile (v : Volume) (now : Instant) (path content : Text) (append : Bool) :
    Mild (v.writeFile now path content append).1 := by
  rw [writeFile]
  split
  · exact v.mild_createFile now path content
  · split
    · exact .error rfl
    · exact .ok _

theorem mild_touchPath (v : Volume) (now : Instant) (path : Text) :
    Mild (v.touchPath now path).1 := by
  rw [touchPath]
  split
  · exact v.mild_createFile now path []
  · exact .ok _

theorem mild_remove (v : Volume) (now : Instant) (path : Text) (recursive : Bool) :
    Mild (v.remove now path recursive) := by
  rw [remove]
  refine .bind (v.mild_lookup path) ?_
  intro found
  exact .check rfl (.check rfl (.ok _))

theorem mild_destination (v : Volume) (source : InodeId) (target : Text) :
    Mild (v.destination source target) := by
  rw [destination]
  split
  · split
    · exact .ok _
    · exact v.mild_placeFor target
  · exact v.mild_placeFor target

theorem mild_move (v : Volume) (now : Instant) (source target : Text) : Mild (v.move now source target) := by
  rw [move]
  refine .bind (v.mild_lookup source) ?_
  intro node
  refine .check rfl (.bind (v.mild_destination node target) ?_)
  intro place
  have hMoved (cleared : Volume) : Mild (Except.ok (node,
      (cleared.unlink now node).link now place.1 node place.2) : Except Fault (InodeId × Volume)) := .ok _
  refine .check rfl ?_
  -- What stands at the destination is cleared away, unless it is in the way.
  dsimp only
  split
  · split
    · exact .bind (.ok v) hMoved
    · split
      · exact .bind (.error rfl) hMoved
      · split
        · exact .bind (.error rfl) hMoved
        · exact .bind (.ok _) hMoved
  · exact .bind (.ok v) hMoved

theorem mild_copy (v : Volume) (now : Instant) (source target : Text) (recursive : Bool) :
    Mild (v.copy now source target recursive) := by
  rw [copy]
  refine .bind (v.mild_lookup source) ?_
  intro node
  refine .check rfl (.bind (v.mild_destination node target) ?_)
  intro place
  refine .check rfl ?_
  split
  · split
    · exact .ok _
    · exact .error rfl
  · exact .ok _

theorem mild_filesBelow (v : Volume) (path : Text) : Mild (v.filesBelow path) := by
  rw [filesBelow]
  refine .bind (v.mild_lookup path) ?_
  intro found
  split
  · exact .ok _
  · exact .ok _

theorem mild_contentOf (v : Volume) (path : Text) : Mild (v.contentOf path) := by
  rw [contentOf]
  split
  · exact .error rfl
  · split
    · exact .ok _
    · exact .error rfl

theorem mild_store (v : Volume) (now : Instant) (path content : Text) (append : Bool) :
    Mild (v.store now path content append).1 := by
  rw [store]
  split
  · exact v.mild_createFile now path content
  · split
    · exact .error rfl
    · exact .ok _

end TreeShell.Volume
