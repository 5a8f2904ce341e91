import TreeShell.Host.Transfer
import TreeShell.Proofs.Shell.Session
import TreeShell.Proofs.Volume.Descent
import TreeShell.Proofs.Volume.Naming

/-! What unpacking an archive changes in a volume. The names of members come from outside; a name that
is not passed over is read from the directory that the archive is unpacked to, and no part of it goes
up, however it is spelled. -/
namespace TreeShell.Transfer

open Volume

/-- A name that is not passed over ends with a part that is not empty, and no part of it goes up. -/
theorem exists_parts_of_memberPath? {name below : Text} (h : memberPath? name = some below) :
    ∃ parts last, below.splitOn (chr '/') = parts ++ [last] ∧ last ≠ [] ∧ Path.up ∉ parts ++ [last] := by
  rw [memberPath?] at h
  split at h
  · cases h
  · rename_i hKept
    obtain rfl := Option.some.inj h
    generalize hBody : Text.trimWhile (· == '/') (dropHere name) = body at hKept
    simp only [Bool.or_eq_true, not_or, List.isEmpty_iff, List.contains_iff_mem] at hKept
    obtain ⟨parts, last, hPieces⟩ := (List.eq_nil_or_concat' _).resolve_left (Text.splitOn_ne_nil (chr '/') body)
    refine ⟨parts, last, hPieces, ?_, hPieces ▸ hKept.2⟩
    rintro rfl
    cases parts with
    | nil =>
        have hJoin := Text.join_splitOn (chr '/') body
        rw [hPieces] at hJoin
        exact hKept.1 hJoin.symm
    | cons first rest =>
        obtain ⟨before, hText, _⟩ := Text.exists_of_splitOn_eq_concat hPieces (List.cons_ne_nil _ _)
        have hLast : body.getLast? = some (chr '/') := by rw [hText]; simp
        rw [← hBody] at hLast
        exact Bool.noConfusion (Text.getLast?_dropEndWhile hLast)

/-- Wherever the names lead to the directory, an action changes nothing in a session but what is below
that directory, also when it fails. -/
def Inside {α : Type} (names : List Text) (top : InodeId) (action : Action α) : Prop :=
  ∀ session : Session, Placed session.volume names top →
    ∃ w, (action.run.run session).2 = { session with volume := w } ∧ Placed w names top ∧
      GrownBelow top session.volume w

section Inside

variable {α β : Type} {names : List Text} {top : InodeId}

theorem Inside.pure (a : α) : Inside names top (pure a : Action α) := fun session hPlaced =>
  ⟨session.volume, rfl, hPlaced, .refl top session.volume⟩

/-- A sequence stays inside if its parts do. -/
theorem Inside.bind {first : Action α} {next : α → Action β} (hFirst : Inside names top first)
    (hNext : ∀ a, Inside names top (next a)) : Inside names top (first >>= next) := by
  intro session hPlaced
  obtain ⟨u, hMiddle, hStill, hGrown⟩ := hFirst session hPlaced
  rw [Action.run_bind]
  rcases hRun : first.run.run session with ⟨fault | a, later⟩ <;> rw [hRun] at hMiddle
  · exact ⟨u, hMiddle, hStill, hGrown⟩
  · obtain rfl : later = { session with volume := u } := hMiddle
    obtain ⟨w, hLater, hEnd, hMore⟩ := hNext a { session with volume := u } hStill
    exact ⟨w, hLater, hEnd, hGrown.trans hMore⟩

theorem Inside.forM {entries : List α} {each : α → Action PUnit}
    (hEach : ∀ entry ∈ entries, Inside names top (each entry)) :
    Inside names top (entries.forM each) :=
  forM_of_closed (P := Inside names top) (.pure ⟨⟩) (fun hFirst hNext => hFirst.bind fun _ => hNext) hEach

variable {parts : List Text} {path : Text} (hValid : ∀ name ∈ names, Path.IsChildName name)
include hValid

/-- Directories on a path without steps upwards are made inside. -/
theorem inside_makeDirectories (hPath : Path.GoesOn names parts path) (hUp : Path.up ∉ parts) :
    Inside names top (makeDirectories path) := by
  intro session hPlaced
  have hGrown := hPlaced.grownBelow_createDirectories hPath hValid hUp session.now
  rw [makeDirectories, Action.run_changePartly]
  exact ⟨_, rfl, hPlaced.grown (hPlaced.sound.createDirectories session.now path) hGrown, hGrown⟩

/-- A file on a path without steps upwards is written inside. -/
theorem inside_writeFile {last : Text} (hPath : Path.GoesOn names (parts ++ [last]) path)
    (hLast : last ≠ []) (hUp : Path.up ∉ parts ++ [last]) (content : Text) :
    Inside names top (writeFile path content) := by
  intro session hPlaced
  have hGrown := hPlaced.grownBelow_writeFile hPath hValid hUp hLast session.now content false
  rw [writeFile, Action.run_changePartly]
  exact ⟨_, rfl, hPlaced.grown (hPlaced.sound.writeFile session.now path content false) hGrown, hGrown⟩

/-- No member is unpacked anywhere else. -/
theorem inside_unpackMember {v : Volume} (hForest : Forest [] v) (hNames : LeadsBy v root names top)
    (member : Member) : Inside names top (unpackMember (v.pathOf top) member) := by
  rw [unpackMember]
  cases hMember : memberPath? member.name with
  | none => exact .pure _
  | some below =>
      obtain ⟨parts, last, hPieces, hLast, hUp⟩ := exists_parts_of_memberPath? hMember
      have hPath := hForest.goesOn_append hNames hValid below
      rw [hPieces] at hPath
      cases member.kind with
      | directory => exact (inside_makeDirectories hValid hPath hUp).bind fun _ => .pure _
      | other => exact .pure _
      | file bytes =>
          obtain ⟨front, rest, hParse, hFront, hUpFront⟩ := hPath.parse_down hLast hUp
          refine Inside.bind ?_ fun _ => (inside_writeFile hValid hPath hLast hUp _).bind fun _ => .pure _
          rw [hParse]
          exact inside_makeDirectories hValid hFront hUpFront

end Inside

/-- Nothing has changed but a directory and what is below it: the other inodes are as they were, what is
new is below the directory, and nothing that was there has come or gone there. -/
structure Kept (v w : Volume) (top : InodeId) : Prop where
  inodes : ∀ id node, v.get? id = some node → v.isAncestor top id = false → w.get? id = some node
  held : ∀ id, v.Holds id → w.Holds id
  isAncestor : ∀ id, v.Holds id → w.isAncestor top id = v.isAncestor top id
  made : ∀ id, w.Holds id → ¬ v.Holds id → w.isAncestor top id = true
  cwd : w.cwd = v.cwd

/-- Growth below one inode keeps everything outside of it. -/
theorem Kept.of_grownBelow {v w : Volume} {top : InodeId} (hv : Forest [] v) (hw : Forest [] w)
    (hTop : v.Holds top) (h : GrownBelow top v w) : Kept v w top := by
  refine ⟨fun id node hNode hOut => ?_, h.holds, fun id hId => ?_, fun id hId hNew => ?_, h.cwd⟩
  · have hOutside : ¬ Volume.Below v top id := by
      rw [hv.below_iff hTop, hOut]
      decide
    exact (h.inodes id (holds_iff.mpr ⟨node, hNode⟩) hOutside).trans hNode
  · rw [Bool.eq_iff_iff, ← hv.below_iff hTop, ← hw.below_iff (h.holds top hTop)]
    exact h.below_iff hId
  · exact (hw.below_iff (h.holds top hTop)).mp ((h.made id hId).resolve_left hNew)

/-- Unpacking an archive changes nothing but the directory that it is unpacked to, once that directory
has been made, and what is below it, whatever its members are called and wherever it fails. -/
theorem kept_unpack {session : Session} (h : Sound session.volume) (hNamed : ChildNamed session.volume)
    (members : List Member) {path : Text} {top : InodeId} {u : Volume}
    (hMade : session.volume.createDirectories session.now path = (.ok top, u)) :
    ∃ w, ((unpack members path).run.run session).2 = { session with volume := w } ∧ Kept u w top := by
  have hSound := h.createDirectories session.now path
  have hNames := h.childNamed_createDirectories session.now path hNamed
  rw [hMade] at hSound hNames
  have hTop := h.isDirectory_of_createDirectories hMade
  obtain ⟨names, hLeads⟩ := hSound.forest.exists_names (holds_of_isDirectory hTop)
  have hFirst : (makeDirectories path).run.run session = (.ok top, { session with volume := u }) := by
    rw [makeDirectories, Action.run_changePartly, hMade]
  have hMembers : Inside names top (members.forM (unpackMember (u.pathOf top))) :=
    .forM fun member _ =>
      inside_unpackMember (hNames.of_leadsBy hLeads) hSound.forest hLeads member
  obtain ⟨w, hRun, hPlaced, hGrown⟩ := hMembers { session with volume := u } ⟨hSound, hLeads, hTop⟩
  refine ⟨w, ?_, .of_grownBelow hSound.forest hPlaced.sound.forest (holds_of_isDirectory hTop) hGrown⟩
  rw [unpack, Action.run_bind_ok hFirst, Action.run_bind_ok (Action.run_volume _), Action.run_bind_pure, hRun]

/-- Names that go up, in plain sight and behind dots and slashes, are passed over, and what stood next
to the directory is kept when a file is in the way of a later member. -/
theorem kept_unpack_hostile :
    let now := Instant.origin
    let v := (fresh now).after [(now, .createDirectories "/a/b"), (now, .writeFile "/a/x" "kept" false),
      (now, .changeDirectory "/a/b")]
    let session := Session.start v Host.empty now
    let members : List Member := [⟨"././pkg//", .directory⟩, ⟨"../../x", .file [0x78]⟩,
      ⟨"./pkg/./../../x", .file [0x78]⟩, ⟨"//abs/f", .file [0x78]⟩, ⟨"x/..", .directory⟩,
      ⟨"abs/f/x", .file [0x78]⟩, ⟨"later", .file []⟩]
    ∃ u w fault, v.createDirectories now "../../a/c" = (.ok 4, u) ∧
      (unpack members "../../a/c").run.run session = (.error fault, { session with volume := w }) ∧
      Kept u w 4 ∧
      w.listing = ([("/a", none), ("/a/b", none), ("/a/x", some "kept"),
        ("/a/c", none), ("/a/c/pkg", none), ("/a/c/abs", none),
        ("/a/c/abs/f", some "x")] : List (Text × Option Text)) := by
  intro now v session members
  have hAttained : Attained v := (Attained.fresh now).after_of_all rfl
  have hNamed : ChildNamed v := hAttained.tidy.childNamed hAttained.sound.forest
  have hTop : (v.createDirectories now "../../a/c").1.toOption = some 4 := by decide +kernel
  have hFailed : ((unpack members "../../a/c").run.run session).1.toOption = none := by decide +kernel
  have hListing : ((unpack members "../../a/c").run.run session).2.volume.listing =
      ([("/a", none), ("/a/b", none), ("/a/x", some "kept"),
        ("/a/c", none), ("/a/c/pkg", none), ("/a/c/abs", none),
        ("/a/c/abs/f", some "x")] : List (Text × Option Text)) := by
    decide +kernel
  have hFrom : ∀ v u : Volume, Sound v → ChildNamed v →
      v.createDirectories now "../../a/c" = (.ok 4, u) →
      ∃ w, ((unpack members "../../a/c").run.run (Session.start v Host.empty now)).2 =
        { Session.start v Host.empty now with volume := w } ∧ Kept u w 4 :=
    fun _ _ hSound hNames hMade => kept_unpack hSound hNames members hMade
  obtain ⟨u, hMade⟩ := exists_state_of_toOption hTop
  obtain ⟨w, hRun, hKept⟩ := hFrom v u hAttained.sound hNamed hMade
  rcases hEnd : (unpack members "../../a/c").run.run session with ⟨fault | _, later⟩ <;>
    rw [hEnd] at hFailed hListing
  · obtain rfl : later = { session with volume := w } := (congrArg Prod.snd hEnd).symm.trans hRun
    exact ⟨u, w, fault, hMade, rfl, hKept, hListing⟩
  · cases hFailed

end TreeShell.Transfer
