import TreeShell.Proofs.Volume.Bisimulation

/-! What can be seen of a volume from outside. Numbers are not seen: an inode that is given
as an answer is described by its path, name, times and what it holds. Volumes that differ in
numbers only give the same answers, one operation after the other and for ever. -/
namespace TreeShell.Volume

/-- What is seen of an inode. -/
structure Description where
  path : Text
  name : Text
  created : Instant
  modified : Instant
  content : Option Text
  children : List Text
  deriving DecidableEq

def describe (v : Volume) (id : InodeId) : Option Description :=
  (v.get? id).map fun node => {
    path := v.pathOf id
    name := node.name
    created := node.created
    modified := node.modified
    content := node.content?
    children := node.entries.map fun (_, child) => v.nameOf child }

/-- What is seen of a reply. -/
inductive Observation where
  | inode (found : Option Description)
  | plain (reply : Reply)

def observe (v : Volume) : Reply → Observation
  | .inode id => .inode (v.describe id)
  | reply => .plain reply

/-- What operations answer, each at its time, with the path of the current directory after it. -/
def answers (v : Volume) : List (Instant × Operation) → List (Except Fault Observation × Text)
  | [] => []
  | (now, operation) :: later =>
    let (reply, w) := v.perform now operation
    (reply.map w.observe, w.currentPath) :: w.answers later

theorem answers_cons (v : Volume) (now : Instant) (operation : Operation)
    (later : List (Instant × Operation)) : v.answers ((now, operation) :: later) =
      ((v.perform now operation).1.map (v.perform now operation).2.observe,
        (v.perform now operation).2.currentPath) :: (v.perform now operation).2.answers later :=
  rfl

/-- Replies that differ in numbers only. -/
inductive SameReply (r : Pairing) : Reply → Reply → Prop where
  | inode {x y : InodeId} (pair : r x y) : SameReply r (.inode x) (.inode y)
  | plain {reply : Reply} (numberless : ∀ id, reply ≠ .inode id) : SameReply r reply reply

/-- The outcomes of an operation: replies and volumes that differ in numbers only. -/
def SameOutcome (left right : Except Fault Reply × Volume) : Prop :=
  ∃ s : Pairing, EndsAlike (SameReply s) left.1 right.1 ∧ Alike s left.2 right.2

theorem MatchedPartly.settle {r : Pairing} {left right : Except Fault InodeId × Volume}
    (hChange : MatchedPartly r left right) : SameOutcome (settlePartly left) (settlePartly right) := by
  obtain ⟨s, _, hMade, hAlike⟩ := hChange
  exact ⟨s, hMade.map fun _ _ hPair => .inode hPair, hAlike⟩

section Outcomes

variable {r : Pairing} {v w : Volume} (h : Alike r v w)
include h

/-- Changes that end alike have the same outcome. -/
theorem Alike.settle {left right : Except Fault (InodeId × Volume)}
    (hChange : EndsAlike (Matched r) left right) :
    SameOutcome (v.settle left) (w.settle right) := by
  cases hChange with
  | fault fault => exact ⟨r, .fault fault, h⟩
  | result hMatched =>
      obtain ⟨s, _, hPair, hAlike⟩ := hMatched
      exact ⟨s, .result (.inode hPair), hAlike⟩

theorem Alike.settleSilently {left right : Except Fault Volume}
    (hChange : EndsAlike (Alike r) left right) :
    SameOutcome (v.settleSilently left) (w.settleSilently right) := by
  cases hChange with
  | fault fault => exact ⟨r, .fault fault, h⟩
  | result hAlike => exact ⟨r, .result (.plain nofun), hAlike⟩

theorem Alike.ask {left right : Except Fault Reply} (hAnswer : EndsAlike (SameReply r) left right) :
    SameOutcome (v.ask left) (w.ask right) :=
  ⟨r, hAnswer, h⟩

/-- Resolving answers with inodes that stand for each other, or finds nothing in both volumes. -/
theorem Alike.resolveFrom (path : Text) {x y : InodeId} (hPair : r x y) :
    EndsAlike (SameReply r)
      (match v.resolveFrom? x path with
        | some id => pure (.inode id)
        | none => pure .nothing)
      (match w.resolveFrom? y path with
        | some id => pure (.inode id)
        | none => pure .nothing) := by
  rw [resolveFrom?, resolveFrom?]
  obtain ⟨hx, hy⟩ | ⟨_, _, hx, hy, hFound⟩ := rel_cases (h.lookupFrom path hPair).toOption
  · rw [hx, hy]
    exact .result (.plain nofun)
  · rw [hx, hy]
    exact .result (.inode hFound)

theorem Alike.childNames_eq {left right : List (Text × InodeId)}
    (hListed : List.Forall₂ (SameEntry r) left right) :
    left.map (fun (_, child) => v.nameOf child) = right.map (fun (_, child) => w.nameOf child) :=
  map_eq_of_forall₂ (hListed.imp fun _ _ hEntry => h.nameOf_eq hEntry.2)

end Outcomes

/-- A sound volume is alike to itself. -/
theorem Sound.alike_self {v : Volume} (h : Sound v) :
    Alike (fun x y => x = y ∧ v.Holds x) v v := by
  have hEntries : ∀ x, List.Forall₂ (SameEntry fun x y => x = y ∧ v.Holds x) (v.entries x)
      (v.entries x) := by
    intro x
    rw [List.forall₂_same]
    rintro ⟨name, child⟩ hListed
    exact ⟨rfl, rfl, (h.forest.entry x name child hListed).2.1⟩
  refine ⟨⟨?_, ?_⟩, ?_, ?_, ?_, ?_⟩
  · rintro a b c ⟨rfl, _⟩ ⟨rfl, _⟩
    rfl
  · rintro a b c ⟨rfl, _⟩ ⟨rfl, _⟩
    rfl
  · rintro x y ⟨rfl, hHeld⟩
    exact ⟨hHeld.lt, hHeld.lt⟩
  · exact ⟨rfl, holds_of_isDirectory h.forest.rootDirectory⟩
  · exact ⟨rfl, holds_of_isDirectory h.cwdDirectory⟩
  · rintro x y ⟨rfl, hHeld⟩
    obtain ⟨node, hNode⟩ := Volume.holds_iff.mp hHeld
    have hListed := hEntries x
    rw [entries, hNode] at hListed
    rw [hNode]
    refine .some ⟨rfl, ?_, rfl, rfl, ?_⟩
    · cases hParent : node.parent with
      | none => exact .none
      | some up =>
          have hUp : v.parentOf? x = some up := by rw [parentOf?, hNode]; exact hParent
          exact .some ⟨rfl, holds_of_isDirectory (h.forest.parent_isDirectory hUp)⟩
    · obtain ⟨_, _, _, _, body⟩ := node
      cases body with
      | file content => exact .file content
      | directory listed => exact .directory hListed

/-- A tree that takes the place of both volumes is the same one. -/
theorem Alike.settleTree {r : Pairing} {v w : Volume} (h : Alike r v w) (now : Instant)
    (written : Snapshot) : SameOutcome (v.settleSilently (written.toVolume now))
      (w.settleSilently (written.toVolume now)) := by
  cases hRead : written.toVolume now with
  | error fault => exact ⟨r, .fault fault, h⟩
  | ok u => exact ⟨_, .result (.plain nofun), (Snapshot.sound_toVolume hRead).alike_self⟩

/-- Reloading numbers both volumes anew and answers alike. -/
theorem Alike.reload {r : Pairing} {v w : Volume} (h : Alike r v w) (hv : Sound v) (hw : Sound w)
    (now : Instant) : SameOutcome (v.perform now .reload) (w.perform now .reload) := by
  have hPlain : ∀ (s : Pairing) (written : Snapshot),
      SameReply s (.snapshot written) (.snapshot written) := fun _ _ => .plain nofun
  have hSame : Snapshot.ofVolume v = Snapshot.ofVolume w :=
    h.ofInode_eq hv hw h.root (holds_of_isDirectory hv.forest.rootDirectory)
  rw [Volume.perform, Volume.perform, hSame]
  cases hRead : (Snapshot.ofVolume w).toVolume now with
  | error fault => exact ⟨r, .fault fault, h⟩
  | ok u => exact ⟨_, .result (hPlain _ _), (Snapshot.sound_toVolume hRead).alike_self⟩

/-- One operation cannot tell apart volumes that differ in numbers only. -/
theorem Alike.perform {r : Pairing} {v w : Volume} (h : Alike r v w) (hv : Sound v) (hw : Sound w)
    (now : Instant) (operation : Operation) :
    SameOutcome (v.perform now operation) (w.perform now operation) := by
  have hRoot := holds_of_isDirectory hv.forest.rootDirectory
  cases operation with
  | createFile path content => exact (h.createFile now path content).settle
  | createDirectory path => exact h.settle (h.create now path (.directory .nil))
  | createDirectories path => exact (h.createDirectories now path).settle
  | writeFile path content append => exact (h.writeFile now path content append).settle
  | touch path => exact (h.touchPath now path).settle
  | move source target => exact h.settle (h.move hv hw now source target)
  | copy source target recursive => exact h.settle (h.copy hv hw now source target recursive)
  | remove path recursive => exact h.settleSilently (h.remove hv hw now path recursive)
  | changeDirectory path => exact h.settleSilently (h.changeDirectory path)
  | restore written => exact h.settleTree now written
  | reload => exact h.reload hv hw now
  | lookup path => exact h.ask ((h.lookup path).map fun _ _ hPair => .inode hPair)
  | resolve path start =>
      cases start with
      | none => exact h.ask (h.resolveFrom path h.cwd)
      | some start => exact h.ask ((h.lookup start).bind fun _ _ hPair => h.resolveFrom path hPair)
  | read path =>
      refine h.ask ?_
      rw [h.readFile path]
      cases w.readFile path with
      | error fault => exact .fault fault
      | ok content => exact .result (.plain nofun)
  | walk path lead =>
      refine h.ask ((h.lookupHeld hv path).bind fun x y ⟨hPair, hHeld⟩ => ?_)
      have hWalk := h.walkWithin hPair (hv.forest.shallow hHeld)
        (hw.forest.shallow ((h.holds_iff hPair).mp hHeld)) lead
      have hSame : (v.walkWithin v.slots.size lead x).map (fun (path, id) => (path, v.isFile id)) =
          (w.walkWithin w.slots.size lead y).map (fun (path, id) => (path, w.isFile id)) :=
        map_eq_of_forall₂ (hWalk.imp fun a b hab => Prod.ext hab.1 (h.isFile_eq hab.2))
      simp only [hSame]
      exact .result (.plain nofun)
  | children path =>
      refine h.ask ((h.lookup path).bind fun x y hPair => ?_)
      rw [h.childNames_eq (h.entries_rel hPair)]
      exact .result (.plain nofun)
  | isAncestor ancestor path =>
      refine h.ask ((h.lookupHeld hv ancestor).bind fun x y ⟨hPair, hHeld⟩ => ?_)
      refine (h.lookup path).bind fun a b hOther => ?_
      rw [h.isAncestor_eq hv hw hPair hOther hHeld]
      exact .result (.plain nofun)
  | snapshot path =>
      cases path with
      | none =>
          refine h.ask ?_
          rw [show Snapshot.ofVolume v = Snapshot.ofVolume w from h.ofInode_eq hv hw h.root hRoot]
          exact .result (.plain nofun)
      | some path =>
          refine h.ask ((h.lookupHeld hv path).bind fun x y ⟨hPair, hHeld⟩ => ?_)
          rw [h.ofInode_eq hv hw hPair hHeld]
          exact .result (.plain nofun)

section Seen

variable {r : Pairing} {v w : Volume} (h : Alike r v w) (hv : Sound v) (hw : Sound w)
include h hv hw

/-- Inodes that stand for each other are described alike. -/
theorem Alike.describe_eq {x y : InodeId} (hPair : r x y) : v.describe x = w.describe y := by
  rw [describe, describe]
  obtain ⟨hx, hy⟩ | ⟨left, right, hx, hy, hNode⟩ := rel_cases (h.node hPair)
  · rw [hx, hy]
    rfl
  · have hPath := h.pathOf_eq hv hw hPair (Volume.holds_iff.mpr ⟨left, hx⟩)
    simp only [hx, hy, Option.map_some, hPath, hNode.name, hNode.created, hNode.modified,
      hNode.content?, h.childNames_eq hNode.entries]

/-- What can be seen of an answer does not depend on how inodes are numbered. -/
theorem Alike.observe_eq {left right : Reply} (hReply : SameReply r left right) :
    v.observe left = w.observe right := by
  cases hReply with
  | inode hPair => rw [observe, observe, h.describe_eq hv hw hPair]
  | plain numberless =>
      cases left with
      | inode id => exact absurd rfl (numberless id)
      | nothing | text _ | paths _ | names _ | truth _ | snapshot _ => rfl

theorem Alike.currentPath_eq : v.currentPath = w.currentPath :=
  h.pathOf_eq hv hw h.cwd (holds_of_isDirectory hv.cwdDirectory)

omit h hv hw in
/-- Volumes that differ in numbers only give the same answers to whatever is done to them. -/
theorem Alike.answers_eq (h : Alike r v w) (hv : Sound v) (hw : Sound w)
    (operations : List (Instant × Operation)) : v.answers operations = w.answers operations := by
  induction operations generalizing r v w with
  | nil => rfl
  | cons step later ih =>
      obtain ⟨now, operation⟩ := step
      obtain ⟨s, hReply, hAlike⟩ := h.perform hv hw now operation
      have hLeft := hv.perform now operation
      have hRight := hw.perform now operation
      have hSeen : (v.perform now operation).1.map (v.perform now operation).2.observe =
          (w.perform now operation).1.map (w.perform now operation).2.observe :=
        (hReply.map fun _ _ hSame => hAlike.observe_eq hLeft hRight hSame).eq
      rw [answers_cons, answers_cons, hSeen, hAlike.currentPath_eq hLeft hRight, ih hAlike hLeft hRight]

end Seen

end TreeShell.Volume
