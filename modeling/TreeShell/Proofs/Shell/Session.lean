import TreeShell.Proofs.Fault
import TreeShell.Shell.Session

/-! Actions, run in a session: what each way to put them together does with the result and
with the session that is left. -/
namespace TreeShell.Action

theorem run_bind {α β : Type} (first : Action α) (next : α → Action β) (session : Session) :
    (first >>= next).run.run session =
      match first.run.run session with
      | (.ok a, later) => (next a).run.run later
      | (.error fault, later) => (.error fault, later) := by
  rw [TreeShell.run_bind]
  rcases first.run.run session with ⟨_ | _, _⟩ <;> rfl

/-- Behind an action that gives a result the next one goes on. -/
theorem run_bind_ok {α β : Type} {first : Action α} {session later : Session} {a : α}
    (h : first.run.run session = (.ok a, later)) (next : α → Action β) :
    (first >>= next).run.run session = (next a).run.run later :=
  TreeShell.run_bind_ok h next

/-- To give another result changes nothing more. -/
theorem run_bind_pure {α β : Type} (first : Action α) (b : β) (session : Session) :
    ((first >>= fun _ => pure b).run.run session).2 = (first.run.run session).2 := by
  rw [run_bind]
  rcases first.run.run session with ⟨_ | _, _⟩ <;> rfl

theorem run_tryCatch {α : Type} (first : Action α) (handle : Fault → Action α) (session : Session) :
    (tryCatch first handle).run.run session =
      match first.run.run session with
      | (.ok a, later) => (.ok a, later)
      | (.error fault, later) => (handle fault).run.run later := by
  rw [TreeShell.run_tryCatch]
  rcases first.run.run session with ⟨_ | _, _⟩ <;> rfl

theorem run_volume (session : Session) :
    volume.run.run session = (.ok session.volume, session) := rfl

theorem run_ofExcept {α : Type} (result : Except Fault α) (session : Session) :
    (ofExcept result).run.run session = (result, session) := by
  cases result <;> rfl

theorem run_ask {α : Type} (question : Volume → Except Fault α) (session : Session) :
    (ask question).run.run session = (question session.volume, session) :=
  run_ofExcept (question session.volume) session

/-- The host is left in the session as the operation left it, also when it fails. -/
theorem run_onHost {α : Type} (operation : HostM α) (session : Session) :
    (onHost operation).run.run session =
      ((operation.run.run session.host).1,
        { session with host := (operation.run.run session.host).2 }) :=
  run_ofExcept _ _

/-- Warnings are noted in order and have no other effect. -/
theorem run_warn (warnings : List Text) (session : Session) :
    (warnings.forM warn).run.run session =
      (.ok (), { session with warnings := session.warnings ++ warnings }) := by
  induction warnings generalizing session with
  | nil =>
      rw [List.append_nil]
      rfl
  | cons warning warnings ih =>
      have hRest := ih { session with warnings := session.warnings ++ [warning] }
      rw [List.append_assoc] at hRest
      exact hRest

/-- What was made stays in the session, also when the change fails. -/
theorem run_changePartly {α : Type} (step : Volume → Instant → Except Fault α × Volume)
    (session : Session) :
    (changePartly step).run.run session =
      ((step session.volume session.now).1,
        { session with volume := (step session.volume session.now).2 }) :=
  run_ofExcept _ _

/-- A step that succeeds is seen in the volume of the session and nowhere else. -/
theorem run_within_changePartly {α : Type} {step : Volume → Instant → Except Fault α × Volume}
    {session : Session} {result : α} {v : Volume}
    (h : step session.volume session.now = (.ok result, v)) (command : Text) :
    (within command (changePartly step)).run.run session =
      (.ok result, { session with volume := v }) := by
  rw [within, rewording, run_tryCatch, run_changePartly, h]

theorem run_observe {α : Type} (action : Action α) (session : Session) :
    action.observe.run.run session = (.ok (action.run.run session).1, (action.run.run session).2) := rfl

end TreeShell.Action
