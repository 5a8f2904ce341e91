import TreeShell.Proofs.Volume.Write

/-! Joined paths. A path that is put behind the path of a directory is read on from that directory:
it leads to the same inode, or to the same fault, which names the path that was given. So it does not
matter whether a path is put together and followed from the start or taken up where its front ends,
whatever the two are made of. The main statement is `lookup_joined`. -/
namespace TreeShell.Volume

theorem arrive_naming (v : Volume) {path other : Text} (hLast : path.getLast? = other.getLast?)
    (found : InodeId) : v.arrive path found = (v.arrive other found).mapError (Fault.naming path) := by
  rw [arrive, arrive, hLast]
  split <;> rfl

/-- Slashes without a name lead to the root. -/
theorem Reaches.root_eq {v : Volume} {id : InodeId} {count : Nat}
    (h : v.Reaches (List.replicate count (chr '/')) id) : root = id := by
  cases count with
  | zero => exact absurd rfl h.1
  | succ count =>
      have hOne := (reaches_slashes_iff (List.cons_ne_nil (chr '/') []) count).mp h
      exact Except.ok.inj hOne.2

section Joined

variable {v : Volume} {start directory : InodeId} {front rest : Text}
  (hDirectory : v.isDirectory directory = true) (hSome : rest ≠ [])
  (hRelative : Path.isAbsolute rest = false)
include hDirectory hSome hRelative

/-- Where the front parts of a path lead to a directory, its other parts are read from there. -/
theorem lookupFrom_through {path : Text} {parts : List Text}
    (hParts : path.splitOn (chr '/') = parts ++ rest.splitOn (chr '/')) (hLast : path.getLast? = rest.getLast?)
    (hFront : parts.foldlM (v.follow path) (if Path.isAbsolute path then root else v.startAt start) =
      .ok directory) :
    v.lookupFrom start path = (v.lookupFrom directory rest).mapError (Fault.naming path) := by
  have hPath : path ≠ [] := by
    rintro rfl
    exact hSome (List.getLast?_eq_none_iff.mp hLast.symm)
  calc v.lookupFrom start path
    _ = (rest.splitOn (chr '/')).foldlM (v.follow path) directory >>= v.arrive path := by
        rw [lookupFrom_eq v start hPath, hParts, List.foldlM_append, hFront, ok_bind]
    _ = ((rest.splitOn (chr '/')).foldlM (v.follow rest) directory >>= v.arrive rest).mapError
          (Fault.naming path) := by
        rw [mapError_bind, followAll_naming v path rest]
        exact congrArg (bind _) (funext (v.arrive_naming hLast))
    _ = (v.lookupFrom directory rest).mapError (Fault.naming path) := by
        rw [lookupFrom_eq v directory hSome, hRelative, startAt_of_isDirectory hDirectory]
        rfl

/-- With a slash between them, two paths are read one after the other. -/
theorem lookupFrom_slash (hFront : v.lookupFrom start front = .ok directory) :
    v.lookupFrom start (front ++ chr '/' :: rest) =
      (v.lookupFrom directory rest).mapError (Fault.naming (front ++ chr '/' :: rest)) := by
  obtain ⟨hFrontSome, hFollowed, _⟩ := lookupFrom_eq_ok.mp hFront
  have hLast : (front ++ chr '/' :: rest).getLast? = rest.getLast? := by
    rw [List.getLast?_append_cons, List.getLast?_cons_of_ne_nil hSome]
  have hAbsolute : Path.isAbsolute (front ++ chr '/' :: rest) = Path.isAbsolute front := by
    obtain ⟨c, front, rfl⟩ := List.exists_cons_of_ne_nil hFrontSome
    rfl
  refine lookupFrom_through hDirectory hSome hRelative (Text.splitOn_append_sep (chr '/') front rest) hLast ?_
  rw [hAbsolute]
  exact (followAll_eq_ok_iff _ front).mpr hFollowed

/-- Behind one slash a path is read from the root. -/
theorem lookupFrom_root_slash (hRoot : root = directory) :
    v.lookupFrom start (chr '/' :: rest) =
      (v.lookupFrom directory rest).mapError (Fault.naming (chr '/' :: rest)) := by
  have hParts : Text.splitOn (chr '/') (chr '/' :: rest) = [[]] ++ rest.splitOn (chr '/') := by
    rw [Text.splitOn, if_pos rfl]
    rfl
  refine lookupFrom_through hDirectory hSome hRelative hParts (List.getLast?_cons_of_ne_nil hSome) ?_
  exact congrArg Except.ok hRoot

/-- A path is put behind the path of a directory whatever slashes that one ends with. -/
theorem lookup_append (hFront : v.lookup front = .ok directory) :
    v.lookup (Path.append front rest) =
      (v.lookupFrom directory rest).mapError (Fault.naming (Path.append front rest)) := by
  have hReached := (lookup_eq_ok.mp hFront).1
  obtain ⟨count, hSlashes⟩ := Text.exists_replicate_dropEndWhile (chr '/') front
  rw [Path.append]
  by_cases hBody : front.dropEndWhile (· == '/') = []
  · rw [hSlashes, hBody, List.nil_append] at hReached
    rw [hBody]
    exact lookupFrom_root_slash hDirectory hSome hRelative hReached.root_eq
  · rw [hSlashes, reaches_slashes_iff hBody] at hReached
    have hTrimmed : v.lookup (front.dropEndWhile (· == '/')) = .ok directory :=
      lookup_eq_ok.mpr ⟨hReached, fun _ => isFile_of_isDirectory hDirectory⟩
    exact lookupFrom_slash hDirectory hSome hRelative hTrimmed

end Joined

/-- Joining two paths goes on where the first one ends: where that is a directory, the joined path
leads to the inode that the second one leads to from there, or into a fault of the same kind. Slashes
at the end of the first path may be kept or left out. -/
theorem lookup_joined {v : Volume} {front rest : Text} {directory : InodeId}
    (hFront : v.lookup front = .ok directory) (hDirectory : v.isDirectory directory = true)
    (hSome : rest ≠ []) (hRelative : Path.isAbsolute rest = false) :
    (v.lookup (front ++ chr '/' :: rest)).mapError Fault.kind =
        (v.lookupFrom directory rest).mapError Fault.kind ∧
      (v.lookup (Path.append front rest)).mapError Fault.kind =
        (v.lookupFrom directory rest).mapError Fault.kind := by
  constructor
  · rw [lookup, lookupFrom_slash hDirectory hSome hRelative hFront, Fault.mapError_kind_naming]
  · rw [lookup_append hDirectory hSome hRelative hFront, Fault.mapError_kind_naming]

/-- A file in the middle of a path stops it, although the next part goes up again. -/
theorem lookup_joined_file :
    let v := (fresh .origin).after [(.origin, .createDirectories "/d/e"),
      (.origin, .writeFile "/d/a" "x" false), (.origin, .changeDirectory "/d/e")]
    v.lookup "..//./e/../" = .ok 1 ∧ v.isDirectory 1 = true ∧ ("a/../e" : Text) ≠ [] ∧
      Path.isAbsolute "a/../e" = false ∧
      v.lookupFrom 1 "a/../e" = .error (.path .notDirectory "a/../e") ∧
      (v.lookup "..//./e/..//a/../e").mapError Fault.kind = .error (.path .notDirectory) ∧
      (v.lookup "..//./e/../a/../e").mapError Fault.kind = .error (.path .notDirectory) := by
  intro v
  have hFront : v.lookup "..//./e/../" = .ok 1 := rfl
  have hDirectory : v.isDirectory 1 = true := rfl
  have hSome : ("a/../e" : Text) ≠ [] := by decide
  have hRelative : Path.isAbsolute "a/../e" = false := by decide
  have hStopped : v.lookupFrom 1 "a/../e" = .error (.path .notDirectory "a/../e") := rfl
  obtain ⟨hKept, hDropped⟩ := lookup_joined hFront hDirectory hSome hRelative
  rw [hStopped] at hKept hDropped
  exact ⟨hFront, hDirectory, hSome, hRelative, hStopped, hKept, hDropped⟩

end TreeShell.Volume
