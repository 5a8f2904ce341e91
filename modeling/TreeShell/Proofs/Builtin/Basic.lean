import TreeShell.Builtin.Basic
import TreeShell.Proofs.Options
import TreeShell.Proofs.Shell.Session

/-! What the commands share, run in a session: a command whose words can be read does its work,
and a file that it is given is read. -/
namespace TreeShell.Builtin

open Options

/-- A command whose words can be read does its work. -/
theorem run_prepared {spec : Spec} {acceptsInput : Bool} {prepare : List Text → List Text}
    {work : Arguments → Option Text → Action Text} {words : List Word} {arguments : Arguments}
    (h : spec.read (prepare (words.map Word.text)) = .ok (.work arguments)) (stdin : Option Text)
    (session : Session) :
    ((prepared spec acceptsInput prepare work).run words stdin).run.run session =
      (work arguments stdin).run.run session := by
  simp only [prepared, h]
  rfl

/-- What can be read is a file that the path leads to. -/
theorem lookup_of_readFile {v : Volume} {path content : Text} (h : v.readFile path = .ok content) :
    ∃ found, v.lookup path = .ok found ∧ v.content? found = some content := by
  simp only [Volume.readFile, bind_eq_ok] at h
  obtain ⟨found, hFound, hContent⟩ := h
  cases hText : v.content? found with
  | none => simp [hText] at hContent
  | some text =>
      simp only [hText] at hContent
      cases hContent
      exact ⟨found, hFound, hText⟩

/-- Reading leaves the session as it is. -/
theorem run_readFile {session : Session} {path content : Text} (command : Text)
    (h : session.volume.contentOf path = .ok content) :
    (readFile command path).run.run session = (.ok content, session) := by
  have hAsk : (Action.ask fun v => v.contentOf path).run.run session = (.ok content, session) := by
    change (Action.ofExcept (session.volume.contentOf path)).run.run session = _
    rw [h]
    rfl
  rw [readFile, Action.within, Action.rewording, Action.run_tryCatch, hAsk]

/-- A file is the only input of a command that is given nothing else. -/
theorem run_inputs {session : Session} {path content : Text} (command : Text)
    (h : session.volume.contentOf path = .ok content) :
    (inputs command [path] none).run.run session = (.ok [(path, content)], session) := by
  have hOne : inputs command [path] none = (do
      let content ← readFile command path
      return [(path, content)]) := by
    simp [inputs]
  rw [hOne, Action.run_bind_ok (run_readFile command h)]
  rfl

section Lookup

variable {session : Session} {path content : Text} {found : InodeId}
  (hFound : session.volume.lookup path = .ok found)
include hFound

theorem resolve?_of_lookup : session.volume.resolve? path = some found := by
  rw [Volume.resolve?, hFound]
  rfl

theorem contentOf_of_lookup (hContent : session.volume.content? found = some content) :
    session.volume.contentOf path = .ok content := by
  rw [Volume.contentOf, resolve?_of_lookup hFound]
  simp only [hContent]

end Lookup

end TreeShell.Builtin
