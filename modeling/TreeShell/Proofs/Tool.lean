import TreeShell.Proofs.Volume.Reload
import TreeShell.Tool

/-! Putting a saved state back. A state that cannot be read leaves the tool alone. One that can be
read replaces the tree before its current directory is looked for, so that a file in that place is
met too late. The states that a tool saves never meet it. -/
namespace TreeShell

open Volume

def SavedState.read (state : SavedState) (now : Instant) : Except Fault Volume :=
  match state.root with
  | none => .error .snapshotWithoutRoot
  | some root => root.toVolume now

/-- Whatever the state holds, what is read from it is a sound volume. -/
theorem SavedState.sound_read {state : SavedState} {now : Instant} {v : Volume}
    (h : state.read now = .ok v) : Sound v := by
  rw [read] at h
  split at h
  · cases h
  · exact Snapshot.sound_toVolume h

/-- Of the paths that name something, those of files cannot become current. -/
theorem Volume.Sound.changeDirectory_eq_error_iff {v : Volume} (h : Sound v) {path : Text}
    {id : InodeId} (hFound : v.resolve? path = some id) {fault : Fault} :
    v.changeDirectory path = .error fault ↔ v.isFile id = true ∧ fault = .path .notDirectory path := by
  have hLookup : v.lookup path = .ok id := by
    rw [resolve?] at hFound
    cases hAnswer : v.lookup path with
    | error other =>
        rw [hAnswer] at hFound
        cases hFound
    | ok found =>
        rw [hAnswer] at hFound
        exact congrArg _ (Option.some.inj hFound)
  have hSome : path.isEmpty = false := by
    cases path with
    | nil => cases hLookup
    | cons c path => rfl
  have hHeld : (v.get? id).isSome = true := h.holds_lookup hLookup
  rw [isFile_eq, hHeld, Bool.true_and, Volume.changeDirectory, hSome]
  simp only [hLookup, ok_bind, Bool.false_eq_true, if_false]
  cases v.isDirectory id with
  | true =>
      constructor
      · rintro ⟨⟩
      · exact fun hFile => absurd hFile.1 (by decide)
  | false =>
      constructor
      · rintro ⟨⟩
        exact ⟨rfl, rfl⟩
      · rintro ⟨_, rfl⟩
        rfl

namespace Tool

/-- A state that cannot be read leaves the tool as it is: everything is read before anything is
replaced. -/
theorem restore_of_read_eq_error {tool : Tool} {state : SavedState} {fault : Fault}
    (h : state.read tool.session.now = .error fault) : tool.restore state = (.error fault, tool) := by
  rw [SavedState.read] at h
  rw [restore]
  cases hRoot : state.root with
  | none =>
      rw [hRoot] at h
      cases h
      rfl
  | some root =>
      rw [hRoot] at h
      dsimp only at h ⊢
      rw [h]

/-- When the tree is there, the current directory is looked for in it. -/
theorem restore_of_read_eq_ok {tool : Tool} {state : SavedState} {v : Volume}
    (h : state.read tool.session.now = .ok v) :
    tool.restore state =
      if (v.resolve? (state.cwd.getD [])).isNone then (.ok ⟨⟩, tool.withVolume v)
      else match v.changeDirectory (state.cwd.getD []) with
        | .ok w => (.ok ⟨⟩, tool.withVolume w)
        | .error fault => (.error fault, tool.withVolume v) := by
  rw [SavedState.read] at h
  rw [restore]
  cases hRoot : state.root with
  | none =>
      rw [hRoot] at h
      cases h
  | some root =>
      rw [hRoot] at h
      dsimp only at h ⊢
      rw [h]
      cases state.cwd.getD [] with
      | nil => rfl
      | cons c cwd => rfl

/-- A state that was saved is put back. -/
theorem exists_restore_save {tool other : Tool} (hReached : Reached other.session.volume)
    (clock : tool.session.now.Readable) : ∃ later, tool.restore other.save = (.ok ⟨⟩, later) := by
  obtain ⟨u, hu, hTidy, hCwd, hSame⟩ := exists_reloaded hReached.sound hReached.tidy clock
  have hRead : other.save.read tool.session.now = .ok u := hu
  have hForest := (Snapshot.sound_toVolume hu).forest
  have hAlike := alike_of_ofVolume_eq hReached.sound.forest hForest hReached.tidy hTidy hSame
  have hBack := hAlike.changeDirectory other.session.volume.currentPath
  have hReset : { u with cwd := root } = u := by rw [← hCwd]
  rw [changeDirectory_currentPath hReached.tidy hReached.sound, hReset] at hBack
  rw [restore_of_read_eq_ok hRead]
  split
  · exact ⟨_, rfl⟩
  · generalize hOutcome : u.changeDirectory other.session.volume.currentPath = outcome at hBack
    cases hBack with
    | @result _ w hFinal =>
        have hChange : u.changeDirectory (other.save.cwd.getD []) = .ok w := hOutcome
        rw [hChange]
        exact ⟨_, rfl⟩

/-- Exactly two things keep a state from being put back. -/
theorem restore_eq_error_iff {tool : Tool} {state : SavedState} {fault : Fault} {later : Tool} :
    tool.restore state = (.error fault, later) ↔
      (state.read tool.session.now = .error fault ∧ later = tool) ∨
      ∃ v cwd id, state.read tool.session.now = .ok v ∧ state.cwd = some cwd ∧
        v.resolve? cwd = some id ∧ v.isFile id = true ∧
        fault = .path .notDirectory cwd ∧ later = tool.withVolume v := by
  cases hRead : state.read tool.session.now with
  | error other =>
      rw [restore_of_read_eq_error hRead]
      constructor
      · rintro ⟨⟩
        exact Or.inl ⟨rfl, rfl⟩
      · rintro (⟨⟨⟩, rfl⟩ | ⟨_, _, _, ⟨⟩, _⟩)
        rfl
  | ok v =>
      rw [restore_of_read_eq_ok hRead]
      have hSound := state.sound_read hRead
      constructor
      · intro hFault
        split at hFault
        · cases hFault
        · rename_i hSome
          have hNamed : v.resolve? (state.cwd.getD []) ≠ none := by simpa using hSome
          obtain ⟨id, hFound⟩ := Option.ne_none_iff_exists'.mp hNamed
          split at hFault
          · cases hFault
          · rename_i hChange
            cases hFault
            obtain ⟨hFile, rfl⟩ := (hSound.changeDirectory_eq_error_iff hFound).mp hChange
            cases hCwd : state.cwd with
            | none =>
                rw [hCwd] at hFound
                cases hFound
            | some cwd =>
                rw [hCwd] at hFound
                exact Or.inr ⟨v, cwd, id, rfl, rfl, hFound, hFile, rfl, rfl⟩
      · rintro (⟨⟨⟩, _⟩ | ⟨_, cwd, id, ⟨⟩, hCwd, hFound, hFile, rfl, rfl⟩)
        have hChange := (hSound.changeDirectory_eq_error_iff hFound).mpr ⟨hFile, rfl⟩
        rw [hCwd, Option.getD_some, hFound, hChange]
        rfl

/-- If the tree of a state cannot be read, the tool stays as it was. If the current directory of the
state is a file of its tree, the tool is left with that tree. Nothing else fails, and no state that
was saved does. -/
theorem restore_faults (tool : Tool) (state : SavedState) :
    (∀ fault later, tool.restore state = (.error fault, later) ↔
      (state.read tool.session.now = .error fault ∧ later = tool) ∨
      ∃ v cwd id, state.read tool.session.now = .ok v ∧ state.cwd = some cwd ∧
        v.resolve? cwd = some id ∧ v.isFile id = true ∧
        fault = .path .notDirectory cwd ∧ later = tool.withVolume v) ∧
    (tool.session.now.Readable → ∀ other : Tool, Reached other.session.volume → state = other.save →
      ∃ later, tool.restore state = (.ok ⟨⟩, later)) := by
  refine ⟨fun _ _ => restore_eq_error_iff, ?_⟩
  rintro clock other hReached rfl
  exact exists_restore_save hReached clock

/-- A tool with another tree takes over what a tool has saved, its current directory included. -/
theorem restore_faults_saved :
    let now := Instant.origin
    let tool := (start 10 true now).withVolume ((fresh now).after [(now, .createFile "/x" "1")])
    let other := (start 10 true now).withVolume
      ((fresh now).after [(now, .createDirectories "/d"), (now, .changeDirectory "/d")])
    tool.session.now.Readable ∧ Reached other.session.volume ∧
      ∃ later, tool.restore other.save = (.ok ⟨⟩, later) := by
  intro now tool other
  have clock : now.Readable := show Instant.parse Instant.origin.render = .ok Instant.origin by rfl
  have hReached : Reached other.session.volume := by
    refine (Reached.fresh clock).after fun step hStep => ?_
    simp only [List.mem_cons, List.not_mem_nil, or_false] at hStep
    rcases hStep with rfl | rfl <;> exact ⟨clock, nofun⟩
  exact ⟨clock, hReached, (restore_faults tool other.save).2 clock other hReached rfl⟩

/-- A directory is current, and a state comes in whose current directory is a file of its tree. -/
theorem exists_half_restored :
    let now := Instant.origin
    let tool := (start 10 true now).withVolume
      ((fresh now).after [(now, .createDirectories "/d"), (now, .changeDirectory "/d")])
    let state : SavedState := ⟨some "/f", some ⟨some Snapshot.directoryKind, none, none, none, none,
      [⟨some Snapshot.fileKind, some "f", none, none, some "x", []⟩]⟩⟩
    ∃ later, tool.restore state = (.error (.path .notDirectory "/f"), later) ∧
      tool.session.volume.resolve? "/d" = some 1 ∧ tool.session.volume.currentPath = "/d" ∧
      later.session.volume.resolve? "/d" = none ∧ later.session.volume.currentPath = "/" := by
  intro now tool state
  have hRead : (state.read now).toOption.map (fun v =>
      ((v.resolve? "/f").map v.isFile, v.resolve? "/d", v.currentPath)) =
      some (some true, none, ("/" : Text)) := by decide +kernel
  obtain ⟨v, hv, hSeen⟩ := exists_ok_of_map_toOption hRead
  obtain ⟨hFile, hGone, hRoot⟩ : _ ∧ _ ∧ _ := by simpa only [Prod.mk.injEq] using hSeen
  obtain ⟨id, hFound, hKind⟩ := Option.map_eq_some_iff.mp hFile
  refine ⟨tool.withVolume v, ?_, by decide +kernel, by decide +kernel, hGone, hRoot⟩
  have hSound := state.sound_read hv
  have hChange := (hSound.changeDirectory_eq_error_iff hFound).mpr ⟨hKind, rfl⟩
  have hCwd : state.cwd.getD [] = "/f" := rfl
  rw [restore_of_read_eq_ok hv, hCwd, hFound, hChange]
  rfl

end Tool

end TreeShell
