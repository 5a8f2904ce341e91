import TreeShell.Proofs.Volume.Joined
import TreeShell.Volume.Walk

/-! Walks, level by level. What is below a child is walked under the name of the child, so that the
depth of a path is the number of its segments; and a path that is joined with one of a walk leads to
what the walk meets there. -/
namespace TreeShell

namespace Path

/-- The number of names in a path. -/
def segments (path : Text) : Nat := (path.splitOn (chr '/')).length

theorem segments_pos (path : Text) : 0 < segments path :=
  List.length_pos_of_ne_nil (Text.splitOn_ne_nil (chr '/') path)

theorem segments_of_isChildName {name : Text} (h : IsChildName name) : segments name = 1 := by
  rw [segments, Text.splitOn_of_not_mem h.single]
  rfl

theorem segments_cons {name : Text} (h : IsChildName name) (below : Text) :
    segments (name ++ chr '/' :: below) = segments below + 1 := by
  rw [segments, Text.splitOn_append h.single]
  rfl

theorem append_of_no_slash {directory : Text} (h : directory.getLast? ≠ some (chr '/')) (below : Text) :
    append directory below = directory ++ chr '/' :: below := by
  have hSelf : directory.dropEndWhile (· == '/') = directory := by
    apply Text.dropEndWhile_eq_self
    intro c hLast
    rw [beq_eq_false_iff_ne]
    rintro rfl
    exact h hLast
  rw [append, hSelf]

theorem IsChildName.getLast?_append {name : Text} (h : IsChildName name) (directory : Text) :
    (append directory name).getLast? ≠ some (chr '/') := by
  rw [append, List.getLast?_append_cons, List.getLast?_cons_of_ne_nil h.ne_nil]
  exact fun hSlash => h.single (List.mem_of_getLast? hSlash)

/-- Behind a name in a directory, paths go on below it. -/
theorem append_append {name : Text} (h : IsChildName name) (directory below : Text) :
    append (append directory name) below = append directory (name ++ chr '/' :: below) := by
  rw [append_of_no_slash (h.getLast?_append directory), append, append, List.append_assoc,
    List.cons_append]

end Path

namespace Volume

section Named

variable {v : Volume} (h : Forest [] v) (hNamed : ChildNamed v)
include h hNamed

/-- A lead stands before every path of a walk. -/
theorem Forest.walkWithin_lead (bound : Nat) {lead : Text} (hLead : lead ≠ []) (id : InodeId) :
    v.walkWithin bound lead id =
      (v.walkWithin bound [] id).map fun found => (lead ++ chr '/' :: found.1, found.2) := by
  induction bound generalizing lead id with
  | zero => rfl
  | succ bound ih =>
      have hSome : lead.isEmpty = false := by simpa using hLead
      rw [walkWithin, walkWithin, List.map_flatMap]
      refine List.flatMap_congr fun entry hEntry => ?_
      have hName : v.nameOf entry.2 ≠ [] := by
        rw [(h.entry id entry.1 entry.2 hEntry).2.2.1]
        exact (hNamed id entry.1 entry.2 hEntry).ne_nil
      have hLonger : lead ++ chr '/' :: v.nameOf entry.2 ≠ [] := by simp
      simp only [hSome, List.isEmpty_nil, if_true, Bool.false_eq_true, if_false, ih hLonger,
        ih hName, List.map_cons, List.map_map, Function.comp_def, List.append_assoc,
        List.cons_append]

/-- A walk goes through the children, and below each of them. -/
theorem Forest.walkWithin_succ (bound : Nat) (id : InodeId) :
    v.walkWithin (bound + 1) [] id = (v.entries id).flatMap fun entry =>
      (entry.1, entry.2) :: (v.walkWithin bound [] entry.2).map fun found =>
        (entry.1 ++ chr '/' :: found.1, found.2) := by
  rw [walkWithin]
  refine List.flatMap_congr fun entry hEntry => ?_
  have hName := (h.entry id entry.1 entry.2 hEntry).2.2.1
  have hSome := (hNamed id entry.1 entry.2 hEntry).ne_nil
  simp only [List.isEmpty_nil, if_true, hName, h.walkWithin_lead hNamed bound hSome]

/-- A path that leads to a directory, joined with one from there, leads on. -/
theorem Forest.lookup_append {start path : Text} {top id : InodeId}
    (hStart : v.lookup start = .ok top) (hTop : v.isDirectory top = true)
    (hMem : (path, id) ∈ v.walk top) : v.lookup (Path.append start path) = .ok id := by
  obtain ⟨_, hRoute, _⟩ := (h.mem_walk hNamed (holds_of_isDirectory hTop)).mp hMem
  rw [Volume.lookup_append hTop hRoute.path_ne_nil hRoute.not_isAbsolute hStart,
    h.lookupFrom_walk hNamed hTop hMem]
  rfl

end Named

end Volume

end TreeShell
