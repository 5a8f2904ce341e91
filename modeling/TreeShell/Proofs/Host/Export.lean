import TreeShell.Host.Transfer
import TreeShell.Proofs.Shell.Session
import TreeShell.Proofs.Volume.Naming

/-! What an export writes on the host. A directory that stands on the host goes on standing, so that
the target of an export is the same place from its first entry to its last, and names that a path
can lead through do not lead out of it. Whether the names of a volume are such names is decided by
the snapshots that were read. -/
namespace TreeShell

namespace HostPath

/-- A path with names added behind it. -/
def deeper (p : HostPath) (names : List Text) : HostPath := { p with parts := p.parts ++ names }

theorem parent_deeper (p : HostPath) {names : List Text} (h : names ≠ []) :
    (p.deeper names).parent = p.deeper names.dropLast := by
  rw [parent, deeper, deeper, List.dropLast_append_of_ne_nil h]

/-- Names that a path can lead through are added as they are. -/
theorem join_eq_deeper (p : HostPath) {names : List Text} {path : Text}
    (h : Path.IsRoute names path) : p.join path = p.deeper names := by
  have hLead : path.takeWhile (· == chr '/') = [] := by
    cases path with
    | nil => rfl
    | cons c path =>
        have hFirst : (c == chr '/') = false := h.not_isAbsolute
        rw [List.takeWhile_cons_of_neg (by simp [hFirst])]
  have hParts : (names.filter fun part => !part.isEmpty && part != [chr '.']) = names := by
    rw [List.filter_eq_self]
    intro name hName
    obtain ⟨hSome, _, hDot, _⟩ := Path.isChildName_iff.mp (h.childNames name hName)
    simp [hSome, hDot]
  rw [join, ofText, hLead, h.splitOn_eq, hParts]
  rfl

end HostPath

namespace Host

/-- Taking one place out of a list leaves the other places to be found. -/
theorem lookup_filter_ne (nodes : List (List Text × HostNode)) {place x : List Text} (hx : x ≠ place) :
    (nodes.filter (·.1 != place)).lookup x = nodes.lookup x := by
  induction nodes with
  | nil => rfl
  | cons entry nodes ih =>
      obtain ⟨at', found⟩ := entry
      by_cases hPlace : at' = place
      · subst hPlace
        simp [List.lookup_cons, beq_false_of_ne hx, ih]
      · simp [hPlace, List.lookup_cons, ih]

theorem node?_put_self (h : Host) (place : List Text) (node : HostNode) :
    (h.put place node).node? place = some node := by
  have hNone : (h.nodes.filter (·.1 != place)).lookup place = none := by
    rw [List.lookup_eq_none_iff]
    intro entry hEntry
    have hOther : entry.1 ≠ place := by simpa using (List.mem_filter.mp hEntry).2
    simpa using hOther.symm
  simp [put, node?, List.lookup_append, hNone]

theorem node?_put_of_ne (h : Host) {place x : List Text} (hx : x ≠ place) (node : HostNode) :
    (h.put place node).node? x = h.node? x := by
  simp [put, node?, List.lookup_append, lookup_filter_ne h.nodes hx, List.lookup_cons,
    beq_false_of_ne hx]

/-- What is put where no directory stands leaves every directory standing. -/
theorem kept_put {h : Host} {place : List Text} (hFree : h.node? place ≠ some .directory)
    (node : HostNode) (x : List Text) (hNode : h.node? x = some .directory) :
    (h.put place node).node? x = some .directory := by
  have hOther : x ≠ place := by
    rintro rfl
    exact hFree hNode
  rw [node?_put_of_ne h hOther, hNode]

/-- A part of a path is followed from a directory only, and `..` goes up. -/
theorem follow_eq_ok {h : Host} {place next : List Text} {part : Text} :
    h.follow place part = .ok next ↔ h.node? place = some .directory ∧
      next = if part = Path.up then place.dropLast else place ++ [part] := by
  rw [follow]
  split
  · rename_i hNode
    simp [hNode]
  · rename_i hNode
    rw [hNode, Except.ok.injEq, eq_comm]
    exact (and_iff_right rfl).symm
  · rename_i hFile hNode
    rw [hNode]
    constructor
    · rintro ⟨⟩
    · exact fun hDown => absurd (Option.some.inj hDown.1) hFile

/-- What an operation does that leaves directories where they are and changes nothing that is not
below a place. -/
structure Extends (base : List Text) (h later : Host) : Prop where
  kept : ∀ place, h.node? place = some .directory → later.node? place = some .directory
  below : ∀ place, later.node? place ≠ h.node? place → base <+: place ∧ place ≠ base

theorem Extends.refl (base : List Text) (h : Host) : Extends base h h :=
  ⟨fun _ hNode => hNode, fun _ hNode => absurd rfl hNode⟩

/-- Extensions of the same place add up. -/
theorem Extends.trans {base : List Text} {h middle later : Host} (left : Extends base h middle)
    (right : Extends base middle later) : Extends base h later := by
  refine ⟨fun place hNode => right.kept place (left.kept place hNode), fun place hNode => ?_⟩
  by_cases hSame : later.node? place = middle.node? place
  · exact left.below place (hSame ▸ hNode)
  · exact right.below place hSame

/-- A path goes on naming the same place as long as the directories on it stand. -/
theorem locate_of_kept {h later : Host} {p : HostPath} {place : List Text}
    (hKept : ∀ x, h.node? x = some .directory → later.node? x = some .directory)
    (hPlace : h.locate p = .ok place) : later.locate p = .ok place := by
  have hParts : ∀ (parts start : List Text),
      parts.foldlM h.follow start = .ok place → parts.foldlM later.follow start = .ok place := by
    intro parts
    induction parts with
    | nil => exact fun _ hEnd => hEnd
    | cons part parts ih =>
        intro start hWay
        rw [List.foldlM_cons, bind_eq_ok] at hWay ⊢
        obtain ⟨next, hFirst, hRest⟩ := hWay
        obtain ⟨hNode, hNext⟩ := follow_eq_ok.mp hFirst
        exact ⟨next, follow_eq_ok.mpr ⟨hKept start hNode, hNext⟩, ih next hRest⟩
  exact hParts p.parts (startOf p) hPlace

/-- Names other than `..` lead down, whatever stands there. -/
theorem foldlM_follow_down {h : Host} {names start place : List Text}
    (hNames : ∀ name ∈ names, name ≠ Path.up) (hWay : names.foldlM h.follow start = .ok place) :
    place = start ++ names := by
  induction names generalizing start with
  | nil =>
      cases hWay
      exact (List.append_nil _).symm
  | cons name names ih =>
      obtain ⟨hName, hRest⟩ := List.forall_mem_cons.mp hNames
      rw [List.foldlM_cons, bind_eq_ok] at hWay
      obtain ⟨next, hFirst, hLater⟩ := hWay
      have hNext := (follow_eq_ok.mp hFirst).2
      rw [if_neg hName] at hNext
      rw [ih hRest hLater, hNext, List.append_assoc, List.singleton_append]

/-- A path names a place where a directory stands. -/
structure Stands (h : Host) (target : HostPath) (base : List Text) : Prop where
  located : h.locate target = .ok base
  directory : h.node? base = some .directory

theorem isDirectoryNode_iff {node : Option HostNode} :
    isDirectoryNode node = true ↔ node = some .directory := by
  rcases node with _ | _ | _ | _ <;> simp [isDirectoryNode]

theorem isDirectory_iff {h : Host} {p : HostPath} :
    h.isDirectory p = true ↔ ∃ base, Stands h p base := by
  rw [isDirectory, isDirectoryNode_iff, find?]
  cases hPlace : h.locate p with
  | error trouble =>
      refine ⟨nofun, ?_⟩
      rintro ⟨base, hStands⟩
      rw [hStands.located] at hPlace
      cases hPlace
  | ok place =>
      refine ⟨fun hNode => ⟨place, hPlace, hNode⟩, ?_⟩
      rintro ⟨base, hStands⟩
      rw [hStands.located] at hPlace
      cases hPlace
      exact hStands.directory

section Stands

variable {h later : Host} {target : HostPath} {base : List Text}

theorem Stands.extends (hStands : Stands h target base) (hExtends : Extends base h later) :
    Stands later target base :=
  ⟨locate_of_kept hExtends.kept hStands.located, hExtends.kept base hStands.directory⟩

/-- Names below a place that stands are located below it: without a step upwards no link leads out.
-/
theorem Stands.locate_deeper (hStands : Stands h target base) {names place : List Text}
    (hNames : ∀ name ∈ names, name ≠ Path.up) (hPlace : h.locate (target.deeper names) = .ok place) :
    place = base ++ names := by
  have hBase : target.parts.foldlM h.follow (startOf target) = .ok base := hStands.located
  have hWay : (target.parts ++ names).foldlM h.follow (startOf target) = .ok place := hPlace
  rw [List.foldlM_append, hBase] at hWay
  exact foldlM_follow_down hNames hWay

/-- What is put below a directory, and not in the place of one, leaves the rest as it is. -/
theorem Stands.extends_put (hStands : Stands h target base) {names place : List Text}
    (hNames : ∀ name ∈ names, name ≠ Path.up) (hPlace : h.locate (target.deeper names) = .ok place)
    (hFree : h.node? place ≠ some .directory) (node : HostNode) :
    Extends base h (h.put place node) := by
  have hHere := hStands.locate_deeper hNames hPlace
  subst hHere
  have hBelow : base ++ names ≠ base := by
    intro hSame
    rw [hSame] at hFree
    exact hFree hStands.directory
  refine ⟨kept_put hFree node, fun x hNode => ?_⟩
  by_cases hSame : x = base ++ names
  · rw [hSame]
    exact ⟨List.prefix_append base names, hBelow⟩
  · exact absurd (node?_put_of_ne h hSame node) hNode

end Stands

/-- Writing on the host: the checks come before the change, except that a content without bytes
leaves an empty file. -/
theorem run_writeFile (p : HostPath) (content : Text) (h : Host) :
    (writeFile p content).run.run h =
      match h.locate p with
      | .error trouble => (.error (.host trouble (Text.quoted p.render)), h)
      | .ok place =>
        if isDirectoryNode (h.node? place) then
          (.error (.host .isDirectory (Text.quoted p.render)), h)
        else match content.measure with
          | .error fault => (.error fault, h.put place (.file []))
          | .ok _ => (.ok (), h.put place (.file (Text.encode content))) := by
  rw [writeFile, run_get_bind]
  cases h.locate p with
  | error trouble => rfl
  | ok place =>
      dsimp only
      split
      · rfl
      · cases content.measure <;> rfl

theorem run_makeDirectory (p : HostPath) (h : Host) :
    (makeDirectory p).run.run h =
      match h.locate p with
      | .error trouble => (.error (.host trouble (Text.quoted p.render)), h)
      | .ok place =>
        if (h.node? place).isSome then (.error (.host .exists (Text.quoted p.render)), h)
        else (.ok (), h.put place .directory) := by
  rw [makeDirectory, run_get_bind]
  cases h.locate p with
  | error trouble => rfl
  | ok place =>
      dsimp only
      split <;> rfl

/-- What was made stays, and the check whether a directory is there changes nothing. -/
theorem run_ensureDirectory (p : HostPath) (h : Host) :
    (ensureDirectory p).run.run h =
      match (makeDirectory p).run.run h with
      | (.ok (), later) => (.ok (), later)
      | (.error fault, later) =>
        if later.isDirectory p then (.ok (), later) else (.error fault, later) := by
  rw [ensureDirectory, run_tryCatch]
  rcases (makeDirectory p).run.run h with ⟨fault | _, later⟩
  · dsimp only
    rw [run_get_bind]
    split <;> rfl
  · rfl

/-- Making a directory with those around it ends with making that directory. -/
theorem run_ensureFrom (lead : Text) (parts : List Text) (h : Host) :
    (ensureFrom lead parts).run.run h = (ensureDirectory ⟨lead, parts.reverse⟩).run.run h ∨
      ∃ part around, parts = part :: around ∧ h.locate ⟨lead, parts.reverse⟩ = .error .missing ∧
        (ensureFrom lead parts).run.run h =
          (ensureFrom lead around >>= fun _ => ensureDirectory ⟨lead, parts.reverse⟩).run.run h := by
  cases parts with
  | nil => exact Or.inl rfl
  | cons part around =>
      rw [ensureFrom, run_get_bind]
      split
      · rename_i hMissing
        exact Or.inr ⟨part, around, rfl, hMissing, rfl⟩
      · exact Or.inl rfl

/-- A directory that has been made stands, where its path still leads. -/
theorem stands_of_makeDirectory {p : HostPath} {h later : Host}
    (hMade : (makeDirectory p).run.run h = (.ok (), later)) : ∃ base, Stands later p base := by
  rw [run_makeDirectory] at hMade
  split at hMade
  · cases hMade
  · rename_i place hPlace
    split at hMade
    · cases hMade
    · rename_i hVacant
      cases hMade
      have hFree : h.node? place ≠ some .directory := fun hNode => hVacant (by rw [hNode]; rfl)
      exact ⟨place, locate_of_kept (kept_put hFree _) hPlace, node?_put_self h place .directory⟩

/-- A directory that was made or found can be located. -/
theorem stands_of_ensureDirectory {p : HostPath} {h later : Host}
    (hMade : (ensureDirectory p).run.run h = (.ok (), later)) : ∃ base, Stands later p base := by
  rw [run_ensureDirectory] at hMade
  rcases hRun : (makeDirectory p).run.run h with ⟨fault | _, middle⟩ <;> rw [hRun] at hMade
  · dsimp only at hMade
    split at hMade
    · rename_i hKind
      cases hMade
      exact isDirectory_iff.mp hKind
    · cases hMade
  · cases hMade
    exact stands_of_makeDirectory hRun

/-- When all directories of a path were ensured, the last one of them is the path itself. -/
theorem stands_of_ensureDirectories {p : HostPath} {h later : Host}
    (hMade : (ensureDirectories p).run.run h = (.ok (), later)) : ∃ base, Stands later p base := by
  have hParts : (⟨p.lead, p.parts.reverse.reverse⟩ : HostPath) = p := by rw [List.reverse_reverse]
  rw [ensureDirectories] at hMade
  rcases run_ensureFrom p.lead p.parts.reverse h with hRun | ⟨part, around, _, _, hRun⟩
  · rw [hRun, hParts] at hMade
    exact stands_of_ensureDirectory hMade
  · rw [hRun, hParts, run_bind] at hMade
    rcases hAround : (ensureFrom p.lead around).run.run h with ⟨fault | _, middle⟩
    · rw [hAround] at hMade
      cases hMade
    · rw [hAround] at hMade
      exact stands_of_ensureDirectory hMade

/-- Wherever a directory stands at the target, an operation changes nothing but what is below it,
also when it fails. -/
def Confined {α : Type} (target : HostPath) (operation : HostM α) : Prop :=
  ∀ h base, Stands h target base → Extends base h (operation.run.run h).2

section Confined

variable {α β : Type} {target : HostPath}

theorem Confined.pure (a : α) : Confined target (pure a : HostM α) := fun h base _ => .refl base h

/-- A sequence is confined if its parts are. -/
theorem Confined.bind {first : HostM α} {next : α → HostM β} (hFirst : Confined target first)
    (hNext : ∀ a, Confined target (next a)) : Confined target (first >>= next) := by
  intro h base hStands
  have hLeft := hFirst h base hStands
  rw [run_bind]
  rcases hRun : first.run.run h with ⟨fault | a, middle⟩ <;> rw [hRun] at hLeft
  · exact hLeft
  · exact hLeft.trans (hNext a middle base (hStands.extends hLeft))

theorem Confined.forM {entries : List α} {each : α → HostM PUnit}
    (hEach : ∀ entry ∈ entries, Confined target (each entry)) : Confined target (entries.forM each) :=
  forM_of_closed (P := Confined target) (.pure ⟨⟩) (fun hFirst hNext => hFirst.bind fun _ => hNext) hEach

variable {names : List Text} (hNames : ∀ name ∈ names, name ≠ Path.up)
include hNames

/-- A file below the target is written below the target, since names of a place lead downwards only.
-/
theorem confined_writeFile (content : Text) : Confined target (writeFile (target.deeper names) content) := by
  intro h base hStands
  rw [run_writeFile]
  cases hPlace : h.locate (target.deeper names) with
  | error trouble => exact .refl base h
  | ok place =>
      dsimp only
      split
      · exact .refl base h
      · rename_i hKind
        have hPut := hStands.extends_put hNames hPlace fun hNode => hKind (isDirectoryNode_iff.mpr hNode)
        split
        · exact hPut _
        · exact hPut _

theorem confined_ensureDirectory : Confined target (ensureDirectory (target.deeper names)) := by
  intro h base hStands
  have hMake : Extends base h ((makeDirectory (target.deeper names)).run.run h).2 := by
    rw [run_makeDirectory]
    cases hPlace : h.locate (target.deeper names) with
    | error trouble => exact .refl base h
    | ok place =>
        dsimp only
        split
        · exact .refl base h
        · rename_i hVacant
          have hFree : h.node? place ≠ some .directory := fun hNode => hVacant (by rw [hNode]; rfl)
          exact hStands.extends_put hNames hPlace hFree _
  rw [run_ensureDirectory]
  rcases hRun : (makeDirectory (target.deeper names)).run.run h with ⟨fault | _, later⟩ <;>
    rw [hRun] at hMake
  · dsimp only
    split <;> exact hMake
  · exact hMake

/-- The directories around a place below the target are below it too, and the target is there. -/
theorem confined_ensureDirectories : Confined target (ensureDirectories (target.deeper names)) := by
  have hFrom : ∀ rest : List Text, (∀ name ∈ rest, name ≠ Path.up) →
      Confined target (ensureFrom target.lead (rest ++ target.parts.reverse)) := by
    intro rest
    induction rest with
    | nil =>
        intro _ h base hStands
        have hSelf : Confined target (ensureDirectory (target.deeper [])) :=
          confined_ensureDirectory nofun
        rw [List.nil_append]
        rcases run_ensureFrom target.lead target.parts.reverse h with hRun | ⟨_, _, _, hMissing, _⟩
        · rw [hRun, List.reverse_reverse]
          rw [HostPath.deeper, List.append_nil] at hSelf
          exact hSelf h base hStands
        · rw [List.reverse_reverse, hStands.located] at hMissing
          cases hMissing
    | cons name rest ih =>
        intro hRest h base hStands
        obtain ⟨hName, hLater⟩ := List.forall_mem_cons.mp hRest
        have hPath : (⟨target.lead, (name :: rest ++ target.parts.reverse).reverse⟩ : HostPath) =
            target.deeper (name :: rest).reverse := by simp [HostPath.deeper]
        have hLast : Confined target (ensureDirectory (target.deeper (name :: rest).reverse)) :=
          confined_ensureDirectory fun part hPart => hRest part (List.mem_reverse.mp hPart)
        rcases run_ensureFrom target.lead (name :: rest ++ target.parts.reverse) h with
          hRun | ⟨part, around, hParts, _, hRun⟩
        · rw [hRun, hPath]
          exact hLast h base hStands
        · obtain ⟨rfl, rfl⟩ := List.cons.inj hParts
          rw [hRun, hPath]
          exact ((ih hLater).bind fun _ => hLast) h base hStands
  have hParts := hFrom names.reverse fun name hName => hNames name (List.mem_reverse.mp hName)
  rw [ensureDirectories, HostPath.deeper, List.reverse_append]
  exact hParts

end Confined

end Host

namespace Transfer

open Host Volume

/-- Every entry of a volume is written below the target, because the path of an entry is a route of
child names. -/
theorem confined_exportEntry (v : Volume) (target : HostPath) {entry : Text × InodeId}
    {names : List Text} (hRoute : Path.IsRoute names entry.1) :
    Confined target (exportEntry v target entry) := by
  have hNames : ∀ name ∈ names, name ≠ Path.up := fun name hName =>
    (hRoute.childNames name hName).ne_up
  have hAround : ∀ name ∈ names.dropLast, name ≠ Path.up := fun name hName =>
    hNames name (List.dropLast_subset names hName)
  rw [exportEntry, target.join_eq_deeper hRoute]
  split
  · exact confined_ensureDirectories hNames
  · rw [target.parent_deeper hRoute.ne_nil]
    exact (confined_ensureDirectories hAround).bind fun _ => confined_writeFile hNames _

/-- What an export writes, apart from the target with the directories around it, lies below the
target. -/
def StaysBelow (session : Session) (path : Text) (target : HostPath) : Prop :=
  let made := ((ensureDirectories target).run.run session.host).2
  let later := ((exportDirectory path target).run.run session).2.host
  later = session.host ∨ ∀ place, later.node? place ≠ made.node? place →
    ∃ base, made.locate target = .ok base ∧ base <+: place ∧ place ≠ base

/-- An export is refused at once, or makes its target and then goes through the walk. -/
theorem run_exportDirectory (session : Session) (path : Text) (target : HostPath) :
    ((exportDirectory path target).run.run session).2.host = session.host ∨
      ∃ node, session.volume.isDirectory node = true ∧
        ((exportDirectory path target).run.run session).2.host =
          ((ensureDirectories target >>= fun _ =>
            (session.volume.walk node).forM (exportEntry session.volume target)).run.run session.host).2 := by
  rw [exportDirectory, Action.run_bind, Action.run_ask]
  cases session.volume.lookup path with
  | error fault => exact Or.inl rfl
  | ok node =>
      cases hKind : session.volume.isDirectory node with
      | false =>
          simp only [Action.run_bind, Action.run_volume, hKind]
          exact Or.inl rfl
      | true =>
          refine Or.inr ⟨node, hKind, ?_⟩
          simp only [Action.run_bind _ _ session, Action.run_volume, hKind]
          rw [if_neg (by decide), Action.run_bind_pure, Action.run_onHost]

/-- Names that a path can lead through keep an export below its target. -/
theorem staysBelow_of_tidy {clock : Instant → Prop} {session : Session}
    (hTidy : Tidy clock session.volume) (hForest : Forest [] session.volume) (path : Text)
    (target : HostPath) : StaysBelow session path target := by
  rcases run_exportDirectory session path target with hSame | ⟨node, hKind, hRun⟩
  · exact Or.inl hSame
  · refine Or.inr fun place hChanged => ?_
    have hEntries : Confined target
        ((session.volume.walk node).forM (exportEntry session.volume target)) := by
      refine .forM fun entry hEntry => ?_
      obtain ⟨names, hRoute, _⟩ :=
        (hForest.mem_walk (hTidy.childNamed hForest) (holds_of_isDirectory hKind)).mp hEntry
      exact confined_exportEntry session.volume target hRoute
    rw [hRun, run_bind] at hChanged
    rcases hMade : (ensureDirectories target).run.run session.host with ⟨fault | _, made⟩ <;>
      rw [hMade] at hChanged
    · exact absurd rfl hChanged
    · obtain ⟨base, hStands⟩ := stands_of_ensureDirectories hMade
      exact ⟨base, hStands.located, (hEntries made base hStands).below place hChanged⟩

end Transfer

namespace Snapshot

open Host Transfer Volume

/-- Reading takes over every name of a snapshot. What was read is found at its paths exactly if all of
them are names that a path can lead through; then this stays so, and no export leaves its target. -/
theorem names_of_toVolume {now : Instant} {written : Snapshot} {v : Volume}
    (hv : written.toVolume now = .ok v) :
    (∀ name, name ∈ namesAmong written.children ↔
      ∃ id node, v.get? id = some node ∧ id ≠ root ∧ node.name = name) ∧
    (∀ id, v.Holds id → (v.lookup (v.pathOf id) = .ok id ↔ v.Accessible id)) ∧
    ((∀ id, v.Holds id → v.lookup (v.pathOf id) = .ok id) ↔
      ∀ name ∈ namesAmong written.children, Path.IsChildName name) ∧
    ((∀ name ∈ namesAmong written.children, Path.IsChildName name) →
      ∀ history : List (Instant × Operation),
        (∀ step ∈ history, ∀ other, step.2 ≠ .restore other) →
        ∀ session : Session, session.volume = v.after history →
          Addressed session.volume ∧ ∀ path target, StaysBelow session path target) := by
  have hSound := sound_toVolume hv
  have hForest := hSound.forest
  have hFound : ∀ id, v.Holds id → (v.lookup (v.pathOf id) = .ok id ↔ v.Accessible id) :=
    fun id hId => hForest.lookupFrom_pathOf_iff v.cwd hId
  refine ⟨fun _ => mem_namesAmong_iff hv, hFound, ⟨fun hAll name hName => ?_, fun hValid id hId => ?_⟩, ?_⟩
  · obtain ⟨id, node, hNode, hRoot, rfl⟩ := (mem_namesAmong_iff hv).mp hName
    have hId : v.Holds id := holds_iff.mpr ⟨node, hNode⟩
    obtain ⟨directory, _, hListed⟩ := hForest.exists_listed hId (by simpa using hRoot)
    have hOpen := ((hForest.accessible_child hListed).mp ((hFound id hId).mp (hAll id hId))).2
    rwa [nameOf, hNode] at hOpen
  · exact (tidy_of_names hv hValid).lookupFrom_pathOf hForest v.cwd hId
  · intro hValid history hSteps session hSession
    have hTidy := (tidy_of_names hv hValid).after_named hSound hSteps
    have hLater := hSound.after history
    rw [← hSession] at hTidy hLater
    exact ⟨hTidy.addressed hLater, fun path target => staysBelow_of_tidy hTidy hLater.forest path target⟩

/-- A file in a directory, moved out of it and exported. -/
theorem names_of_toVolume_nested :
    let now := Instant.origin
    let written : Snapshot := ⟨some directoryKind, none, none, none, none,
      [⟨some directoryKind, some "d", none, none, none,
        [⟨some fileKind, some "f", none, none, some "hi", []⟩]⟩]⟩
    ∃ v, written.toVolume now = .ok v ∧
      let session := Session.start (v.after [(now, .move "/d/f" "/g")]) Host.empty now
      Addressed session.volume ∧ StaysBelow session [chr '/'] (HostPath.ofText "out") := by
  intro now written
  have hRead : (written.toVolume now).toOption.map (fun _ => ()) = some () := by decide +kernel
  obtain ⟨v, hv, _⟩ := exists_ok_of_map_toOption hRead
  refine ⟨v, hv, ?_⟩
  intro session
  have hSteps : ∀ step ∈ [(now, Operation.move "/d/f" "/g")], ∀ other, step.2 ≠ .restore other := by
    intro step hStep
    rw [List.mem_singleton.mp hStep]
    exact nofun
  have hNames : ∀ name ∈ namesAmong written.children, Path.IsChildName name := by
    have hEach : ∀ name ∈ namesAmong written.children,
        name ≠ [] ∧ chr '/' ∉ name ∧ name ≠ [chr '.'] ∧ name ≠ [chr '.', chr '.'] := by decide +kernel
    exact fun name hName => Path.isChildName_iff.mpr (hEach name hName)
  obtain ⟨hAddressed, hBelow⟩ := (names_of_toVolume hv).2.2.2 hNames _ hSteps session rfl
  exact ⟨hAddressed, hBelow _ _⟩

/-- A directory called `..` is read; nothing finds it, and what is in it is written next to the
target of an export. -/
theorem exists_escaping_name :
    let now := Instant.origin
    let written : Snapshot := ⟨some directoryKind, none, none, none, none,
      [⟨some directoryKind, some "..", none, none, none,
        [⟨some fileKind, some "x", none, none, some "hi", []⟩]⟩]⟩
    ∃ v, written.toVolume now = .ok v ∧ v.nameOf 1 = Path.up ∧ v.resolve? (v.pathOf 1) = some root ∧
      ¬ StaysBelow (Session.start v Host.empty now) [chr '/'] (HostPath.ofText "out") := by
  intro now written
  let inside : List Text := ["host", "out"]
  let outside : List Text := ["host", "x"]
  have hRead : (written.toVolume now).toOption.map (fun v =>
      (v.nameOf 1, (v.lookup (v.pathOf 1)).toOption,
        (((exportDirectory [chr '/'] (HostPath.ofText "out")).run.run
          (Session.start v Host.empty now)).2.host.node? outside).isSome)) =
      some (Path.up, some root, true) := by decide +kernel
  obtain ⟨v, hv, hSeen⟩ := exists_ok_of_map_toOption hRead
  obtain ⟨hName, hFound, hWritten⟩ : _ ∧ _ ∧ _ := by simpa only [Prod.mk.injEq] using hSeen
  refine ⟨v, hv, hName, hFound, ?_⟩
  rintro (hSame | hBelow)
  · rw [hSame] at hWritten
    have hAbsent : (Host.empty.node? outside).isSome = false := by decide +kernel
    exact absurd hWritten (Bool.eq_false_iff.mp hAbsent)
  · have hAbsent : (((ensureDirectories (HostPath.ofText "out")).run.run Host.empty).2.node?
        outside).isSome = false := by decide +kernel
    have hTarget : (((ensureDirectories (HostPath.ofText "out")).run.run Host.empty).2.locate
        (HostPath.ofText "out")).toOption = some inside := by decide +kernel
    obtain ⟨base, hBase, hPrefix, _⟩ := hBelow outside fun hSame => by
      rw [hSame] at hWritten
      exact absurd hWritten (Bool.eq_false_iff.mp hAbsent)
    have hOut : base = inside := by
      have hPlace := congrArg Except.toOption hBase
      exact Option.some.inj (hPlace.symm.trans hTarget)
    rw [hOut] at hPrefix
    exact absurd hPrefix (by decide +kernel)

end Snapshot

end TreeShell
