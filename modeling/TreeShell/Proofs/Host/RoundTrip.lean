import TreeShell.Proofs.Host.Places
import TreeShell.Proofs.Text.Utf8
import TreeShell.Proofs.Volume.Naming

/-! Exporting a directory and importing what was written. An export writes down the list of what is
below a directory, an import makes the entries of the list again, in the order of their places. Every
name and every directory comes back, and every content with plain ends of line: the one thing that is
lost on the way is the carriage return, which is written as it stands and not read back. An export ends
at the first content that has no bytes to be written. -/
namespace TreeShell

namespace Host

open Volume Transfer

/-! ## Writing a tree down -/

/-- What stands on the host for an entry of a tree. -/
def nodeOf : Option Text → HostNode
  | none => .directory
  | some content => .file (Text.encode content)

/-- The entries of a list as they stand on the host. -/
def nodesOf (found : List (List Text × Option Text)) : List (List Text × HostNode) :=
  found.map fun entry => (entry.1, nodeOf entry.2)

/-- Below a directory that stands, the host has what a list describes and nothing else. -/
structure Exported (target : HostPath) (base : List Text) (found : List (List Text × Option Text))
    (h : Host) : Prop where
  stands : Stands h target base
  standing_eq : h.standing base = nodesOf found
  directories : ∀ names, (names, none) ∈ found → Stands h (target.deeper names) (base ++ names)

section Exported

variable {h : Host} {target : HostPath} {base around : List Text} {name : Text}
  {found : List (List Text × Option Text)} (hExported : Exported target base found h)
  (hJoins : Joins found around name)
include hExported hJoins

/-- The directory around an entry that can be made stands, and the place of the entry is free. -/
theorem Exported.place : Stands h (target.deeper around) (base ++ around) ∧
    around ++ [name] ∉ (h.standing base).map Prod.fst := by
  constructor
  · rcases hJoins.parent with rfl | hParent
    · rw [HostPath.deeper_nil, List.append_nil]
      exact hExported.stands
    · exact hExported.directories around hParent
  · rw [hExported.standing_eq, nodesOf, List.map_map]
    exact hJoins.fresh

/-- One more entry is put in its place. -/
theorem Exported.put (content : Option Text) :
    Exported target base (found ++ [(around ++ [name], content)])
      (h.put (base ++ (around ++ [name])) (nodeOf content)) := by
  obtain ⟨hAround, hFresh⟩ := hExported.place hJoins
  have hSome : around ++ [name] ≠ [] := by simp
  have hFree := node?_eq_none hSome hFresh
  refine ⟨hExported.stands.put hFree _, ?_, fun names hNames => ?_⟩
  · rw [standing_put hSome hFresh, hExported.standing_eq]
    simp [nodesOf]
  · rw [List.mem_append, List.mem_singleton] at hNames
    rcases hNames with hBefore | hNew
    · exact (hExported.directories names hBefore).put hFree _
    · obtain ⟨rfl, rfl⟩ := Prod.mk.inj hNew
      have hChild := (hAround.put hFree (nodeOf none)).locate_child hJoins.childName.ne_up
      rw [HostPath.deeper_deeper, List.append_assoc] at hChild
      exact ⟨hChild, node?_put_self h _ _⟩

variable (v : Volume) {path : Text} {id : InodeId} (hRoute : Path.IsRoute (around ++ [name]) path)
include hRoute

/-- A file is written to its place as far as it has bytes. -/
theorem Exported.run_exportEntry_file {content : Text} (hContent : v.content? id = some content) :
    (exportEntry v target (path, id)).run.run h = match content.measure with
      | .error fault => (.error fault, h.put (base ++ (around ++ [name])) (.file []))
      | .ok _ => (.ok (), h.put (base ++ (around ++ [name])) (.file (Text.encode content))) := by
  obtain ⟨hAround, hFresh⟩ := hExported.place hJoins
  have hFree := node?_eq_none (by simp) hFresh
  rw [← List.append_assoc] at hFree ⊢
  rw [exportEntry, target.join_eq_deeper hRoute, hContent]
  dsimp only
  rw [target.parent_deeper (by simp), List.dropLast_concat, run_bind_ok hAround.run_ensureDirectories,
    ← HostPath.deeper_deeper]
  exact hAround.run_writeFile_child hJoins.childName.ne_up hFree content

/-- An inode is written to its place. -/
theorem Exported.exists_exportEntry (hBytes : ∀ content, v.content? id = some content → content.HasBytes) :
    ∃ later, (exportEntry v target (path, id)).run.run h = (.ok (), later) ∧
      Exported target base (found ++ [(around ++ [name], v.content? id)]) later := by
  refine ⟨_, ?_, hExported.put hJoins (v.content? id)⟩
  cases hContent : v.content? id with
  | none =>
      obtain ⟨hAround, hFresh⟩ := hExported.place hJoins
      have hFree := node?_eq_none (by simp) hFresh
      rw [← List.append_assoc] at hFree ⊢
      rw [exportEntry, target.join_eq_deeper hRoute, hContent]
      dsimp only
      rw [← HostPath.deeper_deeper]
      exact hAround.run_ensureDirectories_child hJoins.childName.ne_up hFree
  | some content =>
      rw [hExported.run_exportEntry_file hJoins v hRoute hContent,
        Text.measure_of_hasBytes (hBytes content hContent)]
      rfl

end Exported

end Host

namespace Transfer

open Volume Host

/-- Every file of a tree has bytes. -/
def HasBytes (found : List (List Text × Option Text)) : Prop :=
  ∀ names content, (names, some content) ∈ found → Text.HasBytes content

theorem hasBytes_iff {found : List (List Text × Option Text)} :
    HasBytes found ↔ ∀ entry ∈ found, ∀ content ∈ entry.2, Text.HasBytes content :=
  ⟨fun h entry hMem content hContent => h entry.1 content (by rwa [← show entry.2 = some content from hContent]),
    fun h names content hMem => h (names, some content) hMem content rfl⟩

/-- Of the entries that were met, the first one that has no bytes stands behind some that have. -/
theorem exists_first_without_bytes {v : Volume} {met : List (Text × InodeId)}
    (h : ¬ HasBytes (v.byNames met)) : ∃ front entry back content, met = front ++ entry :: back ∧
      HasBytes (v.byNames front) ∧ v.content? entry.2 = some content ∧ ¬ Text.HasBytes content := by
  let refused (entry : Text × InodeId) : Bool := (v.content? entry.2).any (!decide ·.HasBytes)
  have hSome : (met.find? refused).isSome = true := by
    rw [List.find?_isSome]
    simp only [HasBytes, not_forall] at h
    obtain ⟨names, content, hMem, hNone⟩ := h
    obtain ⟨entry, hEntry, hSame⟩ := List.mem_map.mp hMem
    refine ⟨entry, hEntry, ?_⟩
    simp only [refused, (Prod.mk.inj hSame).2, Option.any_some, decide_eq_false hNone, Bool.not_false]
  obtain ⟨entry, hFirst⟩ := Option.isSome_iff_exists.mp hSome
  obtain ⟨hRefused, front, back, hMet, hFront⟩ := List.find?_eq_some_iff_append.mp hFirst
  obtain ⟨content, hContent, hNone⟩ : ∃ content, v.content? entry.2 = some content ∧
      ¬ Text.HasBytes content := by
    simpa [refused, Option.any_eq_true] using hRefused
  refine ⟨front, entry, back, content, hMet, fun names other hMem => ?_, hContent, hNone⟩
  obtain ⟨earlier, hEarlier, hSame⟩ := List.mem_map.mp hMem
  have hFine := hFront earlier hEarlier
  simpa [refused, (Prod.mk.inj hSame).2] using hFine

section Exporting

variable {session : Session} (hForest : Forest [] session.volume) (hNamed : ChildNamed session.volume)
  {path : Text} {directory : InodeId} (hKind : session.volume.isDirectory directory = true)
  {target : HostPath} {base : List Text} {made : Host} (hStands : Stands made target base)
  (hEmpty : made.below base = [])
include hForest hNamed hKind

/-- The entry behind a part of a tree is one that can be made behind that part. -/
theorem exists_joins {front back : List (Text × InodeId)} {entry : Text × InodeId}
    (hWalk : session.volume.walk directory = front ++ entry :: back) :
    ∃ around name, Path.IsRoute (around ++ [name]) entry.1 ∧
      Joins (session.volume.byNames front) around name := by
  have hArranged := hForest.arranged_treeBelow hNamed (holds_of_isDirectory hKind)
  have hMem : entry ∈ session.volume.walk directory := by simp [hWalk]
  obtain ⟨names, hRoute, _⟩ := (hForest.mem_walk hNamed (holds_of_isDirectory hKind)).mp hMem
  rw [treeBelow, hWalk, byNames, List.map_append, List.map_cons] at hArranged
  obtain ⟨around, name, hNames, hJoins⟩ := hArranged.joins
  rw [hRoute.splitOn_eq] at hNames
  exact ⟨around, name, hNames ▸ hRoute, hJoins⟩

include hStands hEmpty

/-- The entries of a tree are written one after the other, as long as they have bytes. -/
theorem exists_exportEntries {front back : List (Text × InodeId)}
    (hWalk : session.volume.walk directory = front ++ back)
    (hBytes : HasBytes (session.volume.byNames front)) :
    ∃ stored, (front.forM (exportEntry session.volume target)).run.run made = (.ok ⟨⟩, stored) ∧
      Exported target base (session.volume.byNames front) stored := by
  have hNothing : made.standing base = [] := by
    rw [below_eq] at hEmpty
    exact List.perm_nil.mp (hEmpty ▸ (List.mergeSort_perm _ _).symm)
  have hEach : ∀ (done : List (Text × InodeId)) (entry : Text × InodeId) (later : List (Text × InodeId))
      (h : Host), front = done ++ entry :: later →
      Exported target base (session.volume.byNames done) h →
      ∃ next, (exportEntry session.volume target entry).run.run h = (.ok (), next) ∧
        Exported target base (session.volume.byNames (done ++ [entry])) next := by
    rintro done ⟨path, id⟩ later h rfl hDone
    obtain ⟨around, name, hRoute, hJoins⟩ :=
      exists_joins hForest hNamed hKind (hWalk.trans (List.append_assoc done _ back))
    have hParts : path.splitOn (chr '/') = around ++ [name] := hRoute.splitOn_eq
    have hEntry : session.volume.byNames (done ++ [(path, id)]) =
        session.volume.byNames done ++ [(around ++ [name], session.volume.content? id)] := by
      simp only [byNames, List.map_append, List.map_singleton, hParts]
    rw [hEntry]
    refine hDone.exists_exportEntry hJoins session.volume hRoute fun content hContent => ?_
    refine hBytes (around ++ [name]) content (List.mem_map.mpr ⟨(path, id), by simp, ?_⟩)
    simp only [hParts, hContent]
  exact exists_run_forM hEach ⟨hStands, hNothing, fun _ hMem => absurd hMem List.not_mem_nil⟩

/-- The first content that has no bytes ends the export. -/
theorem exists_exportEntries_error (hBytes : ¬ HasBytes (session.volume.treeBelow directory)) :
    ∃ position run stored, ((session.volume.walk directory).forM
      (exportEntry session.volume target)).run.run made = (.error (.unencodable position run), stored) := by
  obtain ⟨front, entry, back, content, hWalk, hFront, hContent, hNone⟩ :=
    exists_first_without_bytes hBytes
  obtain ⟨around, name, hRoute, hJoins⟩ := exists_joins hForest hNamed hKind hWalk
  obtain ⟨middle, hRun, hExported⟩ :=
    exists_exportEntries hForest hNamed hKind hStands hEmpty hWalk hFront
  obtain ⟨position, run, hFault⟩ := Text.exists_measure_eq_error hNone
  have hLast := hExported.run_exportEntry_file hJoins session.volume hRoute hContent
  rw [hFault] at hLast
  exact ⟨position, run, _, hWalk ▸ run_forM_error hRun hLast⟩

omit hForest hNamed hStands hEmpty in
/-- An export makes its target and then the entries of the tree, in order. -/
theorem run_exportDirectory_found (hFound : session.volume.lookup path = .ok directory)
    (hMade : (ensureDirectories target).run.run session.host = (.ok (), made)) {result : Except Fault Unit}
    {stored : Host} (hEntries : ((session.volume.walk directory).forM
      (exportEntry session.volume target)).run.run made = (result, stored)) :
    (exportDirectory path target).run.run session =
      (result.map fun _ => target, { session with host := stored }) := by
  have hHost : (ensureDirectories target >>= fun _ =>
      (session.volume.walk directory).forM (exportEntry session.volume target)).run.run session.host =
        (result, stored) := by
    rw [run_bind_ok hMade, hEntries]
  have hLookup : (Action.ask fun v => v.lookup path).run.run session = (.ok directory, session) := by
    rw [Action.run_ask, hFound]
  rw [exportDirectory, Action.run_bind_ok hLookup, Action.run_bind_ok (Action.run_volume session),
    if_neg (by simp [hKind])]
  have hDone : (Action.onHost (ensureDirectories target >>= fun _ =>
      (session.volume.walk directory).forM (exportEntry session.volume target))).run.run session =
        (result, { session with host := stored }) := by
    rw [Action.run_onHost, hHost]
  rw [Action.run_bind, hDone]
  cases result <;> rfl

/-- A directory whose files have bytes is written to a target that is empty once it has been made. -/
theorem exists_exportDirectory (hFound : session.volume.lookup path = .ok directory)
    (hMade : (ensureDirectories target).run.run session.host = (.ok (), made))
    (hBytes : HasBytes (session.volume.treeBelow directory)) :
    ∃ stored, (exportDirectory path target).run.run session = (.ok target, { session with host := stored }) ∧
      Exported target base (session.volume.treeBelow directory) stored := by
  obtain ⟨stored, hEntries, hExported⟩ := exists_exportEntries hForest hNamed hKind hStands hEmpty
    (List.append_nil (session.volume.walk directory)).symm hBytes
  exact ⟨stored, run_exportDirectory_found hKind hFound hMade hEntries, hExported⟩

end Exporting

/-! ## Making the tree again -/

/-- An import makes its directory and then the entries of the host, in order. -/
theorem run_importDirectory {session : Session} {source : HostPath} {base : List Text} {path : Text}
    {top : InodeId} {made : Volume} (hStands : Stands session.host source base)
    (hMade : session.volume.createDirectories session.now path = (.ok top, made)) :
    (importDirectory source path).run.run session =
      ((session.host.below base).forM (importEntry (made.pathOf top)) >>= fun _ => pure top).run.run
        { session with volume := made } := by
  have hFirst : (makeDirectories path).run.run session = (.ok top, { session with volume := made }) := by
    rw [makeDirectories, Action.run_changePartly, hMade]
  rw [importDirectory, run_get_bind, if_neg (by simp [isDirectory_iff.mpr ⟨base, hStands⟩]),
    Action.run_bind_ok hFirst, Action.run_bind_ok (Action.run_volume _), hStands.located]
  rfl

/-- An entry as it comes back: a content with plain ends of line. -/
def readBack (entry : List Text × Option Text) : List Text × Option Text :=
  (entry.1, entry.2.map Text.plainEnds)

/-- What is read back has the same places, so an entry fits in as it did before. -/
theorem joins_readBack {front : List (List Text × Option Text)} {around : List Text} {name : Text}
    (h : Joins front around name) : Joins (front.map readBack) around name := by
  refine ⟨h.aroundNames, h.childName,
    h.parent.imp_right fun hMem => List.mem_map.mpr ⟨_, hMem, rfl⟩, ?_⟩
  rw [List.map_map]
  exact h.fresh

/-- An entry of the host is made under its place. -/
theorem exists_importEntry (session : Session) {names around : List Text} {name base : Text}
    {top : InodeId} {found : List (List Text × Option Text)}
    (h : Imported names top found session.volume) (hJoins : Joins found around name)
    (hValid : ∀ name ∈ names, Path.IsChildName name)
    (hBase : ∀ below, Path.GoesOn names (below.splitOn (chr '/')) (Path.append base below))
    {content : Option Text} (hBytes : ∀ text, content = some text → text.HasBytes) :
    ∃ w, (importEntry base (around ++ [name], nodeOf content)).run.run session =
        (.ok (), { session with volume := w }) ∧
      Imported names top (found ++ [readBack (around ++ [name], content)]) w := by
  have hRoute : Path.IsRoute (around ++ [name]) (Text.join [chr '/'] (around ++ [name])) := by
    refine ⟨by simp, fun other hOther => ?_, rfl⟩
    rcases List.mem_append.mp hOther with hAround | hLast
    · exact hJoins.aroundNames other hAround
    · rw [List.mem_singleton.mp hLast]
      exact hJoins.childName
  have hPath := hBase (Text.join [chr '/'] (around ++ [name]))
  rw [hRoute.splitOn_eq] at hPath
  cases content with
  | none =>
      obtain ⟨id, w, hw, hImported⟩ := h.exists_createDirectories hJoins hValid hPath session.now
      refine ⟨w, ?_, hImported⟩
      have hRun : (makeDirectories (Path.append base (Text.join [chr '/'] (around ++ [name])))).run.run session =
          (.ok id, { session with volume := w }) := by
        rw [makeDirectories, Action.run_changePartly, hw]
      exact Action.run_bind_ok hRun _
  | some content =>
      obtain ⟨id, w, hw, hImported⟩ :=
        h.exists_writeFile hJoins hValid hPath session.now (Text.plainEnds content)
      refine ⟨w, ?_, hImported⟩
      have hText : textOf (nodeOf (some content)) = Text.plainEnds content := by
        rw [nodeOf, textOf, Text.decode_encode (hBytes content rfl)]
      have hRun : (Transfer.writeFile (Path.append base (Text.join [chr '/'] (around ++ [name])))
          (textOf (nodeOf (some content)))).run.run session = (.ok id, { session with volume := w }) := by
        rw [hText, Transfer.writeFile, Action.run_changePartly, hw,
          Text.measure_of_hasBytes (hBytes content rfl).plainEnds]
        rfl
      exact Action.run_bind_ok hRun _

/-- The entries of a list are made one after the other in a directory that is empty at first. -/
theorem exists_importEntries (session : Session) {names : List Text} {base : Text} {top : InodeId}
    (hStart : Imported names top [] session.volume) (hValid : ∀ name ∈ names, Path.IsChildName name)
    (hBase : ∀ below, Path.GoesOn names (below.splitOn (chr '/')) (Path.append base below))
    {found : List (List Text × Option Text)} (hArranged : Arranged found) (hBytes : HasBytes found) :
    ∃ w, ((nodesOf found).forM (importEntry base)).run.run session =
        (.ok ⟨⟩, { session with volume := w }) ∧ Imported names top (found.map readBack) w := by
  have hEach : ∀ (front : List (List Text × Option Text)) (entry : List Text × Option Text)
      (back : List (List Text × Option Text)) (later : Session), found = front ++ entry :: back →
      (∃ w, later = { session with volume := w } ∧ Imported names top (front.map readBack) w) →
      ∃ last, (importEntry base (entry.1, nodeOf entry.2)).run.run later = (.ok (), last) ∧
        ∃ w, last = { session with volume := w } ∧
          Imported names top ((front ++ [entry]).map readBack) w := by
    rintro front ⟨place, content⟩ back _ hSplit ⟨w, rfl, hImported⟩
    have hContent : ∀ text, content = some text → text.HasBytes := by
      rintro text rfl
      exact hBytes place text (by simp [hSplit])
    rw [hSplit] at hArranged
    obtain ⟨around, name, rfl, hJoins⟩ := hArranged.joins
    obtain ⟨next, hRun, hNext⟩ := exists_importEntry { session with volume := w } hImported
      (joins_readBack hJoins) hValid hBase hContent
    refine ⟨_, hRun, next, rfl, ?_⟩
    rw [List.map_append, List.map_singleton]
    exact hNext
  obtain ⟨_, hEntries, w, rfl, hImported⟩ := exists_run_forM hEach ⟨session.volume, rfl, hStart⟩
  refine ⟨w, ?_, hImported⟩
  rw [nodesOf, List.forM_eq_forM, List.forM_map]
  exact hEntries

/-- A directory of the host that holds what a list describes is imported into an empty directory. -/
theorem exists_importDirectory {session : Session} {source : HostPath} {base : List Text}
    {found : List (List Text × Option Text)} (hExported : Exported source base found session.host)
    (hArranged : Arranged found) (hBytes : HasBytes found) (h : Sound session.volume) (hNamed : ChildNamed session.volume)
    {path : Text} {top : InodeId} {made : Volume}
    (hMade : session.volume.createDirectories session.now path = (.ok top, made))
    (hEmpty : made.entries top = []) :
    ∃ w, (importDirectory source path).run.run session = (.ok top, { session with volume := w }) ∧
      (w.treeBelow top).Perm (found.map readBack) := by
  have hSound := h.createDirectories session.now path
  have hNames := h.childNamed_createDirectories session.now path hNamed
  rw [hMade] at hSound hNames
  have hTop := h.isDirectory_of_createDirectories hMade
  obtain ⟨names, hLeads⟩ := hSound.forest.exists_names (holds_of_isDirectory hTop)
  have hValid := hNames.of_leadsBy hLeads
  have hSorted := arranged_mergeSort hArranged
  have hBelow : session.host.below base = nodesOf (found.mergeSort atMost) := by
    rw [below_eq, hExported.standing_eq, nodesOf, nodesOf]
    refine (List.map_mergeSort ?_).symm
    exact fun _ _ _ _ => rfl
  have hSortedBytes : HasBytes (found.mergeSort atMost) := fun _ content hMem =>
    hBytes _ content ((List.mergeSort_perm found atMost).subset hMem)
  obtain ⟨w, hEntries, hImported⟩ := exists_importEntries { session with volume := made }
    ⟨⟨hSound, hLeads, hTop⟩, hNames, carries_nil hEmpty⟩ hValid
    (hSound.forest.goesOn_append hLeads hValid) hSorted hSortedBytes
  refine ⟨w, ?_, ?_⟩
  · rw [run_importDirectory hExported.stands hMade, hBelow, Action.run_bind_ok hEntries]
    rfl
  · have hKeys : (((found.mergeSort atMost).map readBack).map Prod.fst).Nodup := by
      rw [List.map_map]
      exact hSorted.nodup
    refine (hImported.placed.sound.forest.perm_treeBelow hImported.childNamed
      (holds_of_isDirectory hImported.placed.isDirectory) hImported.carries hKeys).trans ?_
    exact (List.mergeSort_perm found atMost).map readBack

/-- Nothing is lost exactly if no content holds a carriage return. -/
theorem mem_readBack_iff {found : List (List Text × Option Text)} (h : (found.map Prod.fst).Nodup) :
    (∀ entry, entry ∈ found.map readBack ↔ entry ∈ found) ↔
      ∀ names content, (names, some content) ∈ found → chr '\r' ∉ content := by
  constructor
  · intro hSame names content hMem
    obtain ⟨⟨others, other⟩, hOther, hBack⟩ := List.mem_map.mp ((hSame _).mpr hMem)
    obtain ⟨rfl, hContent⟩ := Prod.mk.inj hBack
    obtain rfl : other = some content := congrArg Prod.snd (List.inj_on_of_nodup_map h hOther hMem rfl)
    exact Text.plainEnds_eq_self_iff.mp (Option.some.inj hContent)
  · intro hPlain
    have hEach : ∀ entry ∈ found, readBack entry = id entry := by
      rintro ⟨names, content⟩ hMem
      cases content with
      | none => rfl
      | some content => exact congrArg (names, some ·) (Text.plainEnds_of_not_mem (hPlain names content hMem))
    rw [List.map_congr_left hEach, List.map_id]
    exact fun _ => Iff.rfl

/-- What is exported to an empty directory of the host and imported into an empty directory of a volume
is the tree that it was, with plain ends of line. It is the same tree exactly if none of its files holds
a carriage return. A tree with a file that has no bytes is not exported. -/
theorem importDirectory_exportDirectory {session : Session} (h : Sound session.volume)
    (hNamed : ChildNamed session.volume) {path : Text} {directory : InodeId}
    (hFound : session.volume.lookup path = .ok directory)
    (hKind : session.volume.isDirectory directory = true) {target : HostPath} {made : Host}
    (hMade : (ensureDirectories target).run.run session.host = (.ok (), made))
    (hEmpty : ∀ base, made.locate target = .ok base → made.below base = []) :
    (HasBytes (session.volume.treeBelow directory) →
      ∃ stored, (exportDirectory path target).run.run session = (.ok target, { session with host := stored }) ∧
        ∀ (other : Session) (place : Text) (top : InodeId) (u : Volume), other.host = stored →
          Sound other.volume → ChildNamed other.volume →
          other.volume.createDirectories other.now place = (.ok top, u) → u.entries top = [] →
          ∃ w, (importDirectory target place).run.run other = (.ok top, { other with volume := w }) ∧
            (w.treeBelow top).Perm ((session.volume.treeBelow directory).map readBack) ∧
            ((∀ entry, entry ∈ w.treeBelow top ↔ entry ∈ session.volume.treeBelow directory) ↔
              ∀ names content, (names, some content) ∈ session.volume.treeBelow directory →
                chr '\r' ∉ content)) ∧
    (¬ HasBytes (session.volume.treeBelow directory) →
      ∃ position run stored, (exportDirectory path target).run.run session =
        (.error (.unencodable position run), { session with host := stored })) := by
  obtain ⟨base, hStands⟩ := stands_of_ensureDirectories hMade
  have hBare := hEmpty base hStands.located
  constructor
  · intro hBytes
    have hArranged := h.forest.arranged_treeBelow hNamed (holds_of_isDirectory hKind)
    obtain ⟨stored, hExport, hExported⟩ :=
      exists_exportDirectory h.forest hNamed hKind hStands hBare hFound hMade hBytes
    refine ⟨stored, hExport, ?_⟩
    rintro other place top u rfl hOther hOtherNamed hTop hBare
    obtain ⟨w, hImport, hPerm⟩ :=
      exists_importDirectory hExported hArranged hBytes hOther hOtherNamed hTop hBare
    refine ⟨w, hImport, hPerm, (forall_congr' fun entry => ?_).trans (mem_readBack_iff hArranged.nodup)⟩
    rw [hPerm.mem_iff]
  · intro hBytes
    obtain ⟨position, run, stored, hEntries⟩ :=
      exists_exportEntries_error h.forest hNamed hKind hStands hBare hBytes
    exact ⟨position, run, stored, run_exportDirectory_found hKind hFound hMade hEntries⟩

/-- On an empty host, a name in the working directory is a target that is empty once it has been made. -/
theorem exists_empty_target {name : Text} (hName : Path.IsChildName name) :
    ∃ made, (ensureDirectories ⟨[], [name]⟩).run.run Host.empty = (.ok (), made) ∧
      ∀ base, made.locate ⟨[], [name]⟩ = .ok base → made.below base = [] := by
  have hHome : Stands Host.empty ⟨[], []⟩ home := ⟨rfl, rfl⟩
  have hFree : Host.empty.node? (home ++ [name]) = none := by
    have hBare : Host.empty.standing home = [] := by decide
    exact node?_eq_none (List.cons_ne_nil _ _) (by simp [hBare])
  refine ⟨_, hHome.run_ensureDirectories_child hName.ne_up hFree, fun base hBase => ?_⟩
  obtain rfl : home ++ [name] = base :=
    Except.ok.inj (((hHome.put hFree .directory).locate_child hName.ne_up).symm.trans hBase)
  have hNothing : (Host.empty.put (home ++ [name]) .directory).standing (home ++ [name]) = [] := by
    refine List.eq_nil_iff_forall_not_mem.mpr fun entry hEntry => ?_
    obtain ⟨hSome, hMem⟩ := mem_standing.mp hEntry
    have hLast : entry.1 = [] ∧ entry.2 = .directory := by
      simpa [Host.put, Host.empty, home] using hMem
    exact hSome hLast.1
  rw [below_eq, hNothing, List.mergeSort_nil]

/-- Nested directories and an empty one, several bytes in one character, and a line that ends in a
carriage return and a line feed. -/
theorem importDirectory_exportDirectory_nested :
    let now := Instant.origin
    let v := (fresh now).after [(now, .createDirectories "/d/a/b"), (now, .writeFile "/d/f" "é€😀\r\n" false),
      (now, .writeFile "/d/a/g" "x" false)]
    let session := Session.start v Host.empty now
    let target := HostPath.ofText "out"
    ∃ stored w, (exportDirectory "/d" target).run.run session = (.ok target, { session with host := stored }) ∧
      (importDirectory target "/e").run.run { session with host := stored } =
        (.ok 6, { session with host := stored, volume := w }) ∧
      (w.treeBelow 6).Perm ([(["a"], none), (["a", "b"], none),
        (["a", "g"], some "x"), (["f"], some "é€😀\n")] : List (List Text × Option Text)) := by
  intro now v session target
  have hAttained : Attained v := (Attained.fresh now).after_of_all rfl
  have hNamed : ChildNamed v := hAttained.tidy.childNamed hAttained.sound.forest
  have hKind : v.isDirectory 1 = true := by decide +kernel
  have hFound : v.lookup "/d" = .ok 1 := eq_ok_of_toOption (by decide +kernel)
  have hTree : (v.treeBelow 1).map readBack = ([(["a"], none), (["a", "b"], none),
      (["a", "g"], some "x"), (["f"], some "é€😀\n")] : List (List Text × Option Text)) := by
    decide +kernel
  have hBytes : HasBytes (v.treeBelow 1) := hasBytes_iff.mpr (by decide +kernel)
  have hTop : (v.createDirectories now "/e").1.toOption = some 6 := by decide +kernel
  have hBare : (v.createDirectories now "/e").2.entries 6 = [] := by decide +kernel
  have hOut : Path.IsChildName "out" := Path.isChildName_iff.mpr (by decide)
  obtain ⟨made, hMade, hEmpty⟩ := exists_empty_target hOut
  have hFrom : ∀ v u : Volume, Sound v → ChildNamed v → v.lookup "/d" = .ok 1 → v.isDirectory 1 = true →
      HasBytes (v.treeBelow 1) →
      v.createDirectories now "/e" = (.ok 6, u) → u.entries 6 = [] →
      let session := Session.start v Host.empty now
      ∃ stored w, (exportDirectory "/d" target).run.run session =
          (.ok target, { session with host := stored }) ∧
        (importDirectory target "/e").run.run { session with host := stored } =
          (.ok 6, { session with host := stored, volume := w }) ∧
        (w.treeBelow 6).Perm ((v.treeBelow 1).map readBack) := by
    intro v u h hNamed hFound hKind hBytes hTop hBare session
    have hSound : Sound session.volume := h
    obtain ⟨stored, hExport, hImport⟩ :=
      (importDirectory_exportDirectory hSound hNamed hFound hKind hMade hEmpty).1 hBytes
    obtain ⟨w, hRun, hPerm, _⟩ :=
      hImport { session with host := stored } "/e" 6 u rfl h hNamed hTop hBare
    exact ⟨stored, w, hExport, hRun, hPerm⟩
  obtain ⟨u, hMake⟩ := exists_state_of_toOption hTop
  rw [hMake] at hBare
  obtain ⟨stored, w, hExport, hRun, hPerm⟩ := hFrom v u hAttained.sound hNamed hFound hKind hBytes hMake hBare
  exact ⟨stored, w, hExport, hRun, hTree ▸ hPerm⟩

/-- A carriage return is written as it stands and read as a line feed. -/
theorem exists_lost_return :
    let now := Instant.origin
    let v := (fresh now).after [(now, .createDirectories "/d"), (now, .writeFile "/d/f" "\r" false)]
    let session := Session.start v Host.empty now
    let target := HostPath.ofText "out"
    Attained v ∧ v.resolve? "/e" = none ∧ session.host.find? target = none ∧ ∃ stored w,
      (exportDirectory "/d" target).run.run session = (.ok target, { session with host := stored }) ∧
      (importDirectory target "/e").run.run { session with host := stored } =
        (.ok 3, { session with host := stored, volume := w }) ∧
      v.treeBelow 1 = ([(["f"], some "\r")] : List (List Text × Option Text)) ∧
      w.treeBelow 3 = ([(["f"], some "\n")] : List (List Text × Option Text)) := by
  intro now v session target
  have hAttained : Attained v := (Attained.fresh now).after_of_all rfl
  have hNamed : ChildNamed v := hAttained.tidy.childNamed hAttained.sound.forest
  have hKind : v.isDirectory 1 = true := by decide +kernel
  have hFound : v.lookup "/d" = .ok 1 := eq_ok_of_toOption (by decide +kernel)
  have hTree : v.treeBelow 1 = ([(["f"], some "\r")] : List (List Text × Option Text)) := by decide +kernel
  have hBytes : HasBytes (v.treeBelow 1) := hasBytes_iff.mpr (by decide +kernel)
  have hTop : (v.createDirectories now "/e").1.toOption = some 3 := by decide +kernel
  have hBare : (v.createDirectories now "/e").2.entries 3 = [] := by decide +kernel
  have hOut : Path.IsChildName "out" := Path.isChildName_iff.mpr (by decide)
  obtain ⟨made, hMade, hEmpty⟩ := exists_empty_target hOut
  obtain ⟨base, hStands⟩ := stands_of_ensureDirectories hMade
  have hFrom : ∀ v u : Volume, Sound v → ChildNamed v → v.lookup "/d" = .ok 1 → v.isDirectory 1 = true →
      HasBytes (v.treeBelow 1) →
      v.createDirectories now "/e" = (.ok 3, u) → u.entries 3 = [] →
      let session := Session.start v Host.empty now
      ∃ stored w, (exportDirectory "/d" target).run.run session =
          (.ok target, { session with host := stored }) ∧
        (importDirectory target "/e").run.run { session with host := stored } =
          (.ok 3, { session with host := stored, volume := w }) ∧
        (w.treeBelow 3).Perm ((v.treeBelow 1).map readBack) := by
    intro v u h hNamed hFound hKind hBytes hTop hBare session
    have hForest : Forest [] session.volume := h.forest
    obtain ⟨stored, hExport, hExported⟩ :=
      exists_exportDirectory hForest hNamed hKind hStands (hEmpty base hStands.located) hFound hMade hBytes
    have hArranged := h.forest.arranged_treeBelow hNamed (holds_of_isDirectory hKind)
    have hSound : Sound { session with host := stored }.volume := h
    obtain ⟨w, hRun, hPerm⟩ := exists_importDirectory hExported hArranged hBytes hSound hNamed hTop hBare
    exact ⟨stored, w, hExport, hRun, hPerm⟩
  obtain ⟨u, hMake⟩ := exists_state_of_toOption hTop
  rw [hMake] at hBare
  obtain ⟨stored, w, hExport, hRun, hPerm⟩ := hFrom v u hAttained.sound hNamed hFound hKind hBytes hMake hBare
  rw [hTree] at hPerm
  exact ⟨hAttained, by decide +kernel, by rfl, stored, w, hExport, hRun, hTree, List.perm_singleton.mp hPerm⟩

end Transfer

end TreeShell
