import TreeShell.Proofs.Shell.Session

/-! Faults that do not reject the line. A line is rejected for the way it is written: a quote
stays open, a redirection has no target, a heredoc no body or no command. What can only end in
other faults is mild, and whatever is put together from mild parts is mild. -/
namespace TreeShell

/-- Whether a fault rejects a line for the way it is written. -/
def Fault.isSyntax (fault : Fault) : Bool := fault.kind == .badLine || fault.kind == .openQuote

/-- A result that is no rejection of a line. -/
def Mild {α : Type} (x : Except Fault α) : Prop := ∀ fault, x = .error fault → fault.isSyntax = false

namespace Mild

variable {α β : Type}

theorem ok (a : α) : Mild (.ok a : Except Fault α) := nofun

theorem error {fault : Fault} (h : fault.isSyntax = false) : Mild (.error fault : Except Fault α) := by
  intro other hSame
  cases hSame
  exact h

theorem bind {x : Except Fault α} {f : α → Except Fault β} (hFirst : Mild x) (hNext : ∀ a, Mild (f a)) :
    Mild (x >>= f) := by
  cases x with
  | error fault => exact error (hFirst fault rfl)
  | ok a => exact hNext a

theorem map {x : Except Fault α} (h : Mild x) (f : α → β) : Mild (x.map f) := by
  cases x with
  | error fault => exact error (h fault rfl)
  | ok a => exact ok (f a)

theorem ite {c : Prop} [Decidable c] {x y : Except Fault α} (hThen : Mild x) (hElse : Mild y) :
    Mild (if c then x else y) := by
  split
  · exact hThen
  · exact hElse

/-- A check that is made before the rest. -/
theorem check {c : Prop} [Decidable c] {fault : Fault} (h : fault.isSyntax = false)
    {f : PUnit → Except Fault β} (hNext : Mild (f ⟨⟩)) :
    Mild (if c then throw fault >>= f else f ⟨⟩) :=
  ite (error h) hNext

theorem mapM {f : α → Except Fault β} (h : ∀ a, Mild (f a)) (items : List α) : Mild (items.mapM f) := by
  induction items with
  | nil => exact ok []
  | cons item items ih =>
      rw [List.mapM_cons]
      exact (h item).bind fun b => ih.bind fun later => ok (b :: later)

theorem forM {f : α → Except Fault PUnit} (h : ∀ a, Mild (f a)) (items : List α) :
    Mild (items.forM f) :=
  forM_of_closed (P := Mild) (ok PUnit.unit) (fun hFirst hNext => hFirst.bind fun _ => hNext) fun item _ => h item

theorem foldlM {f : β → α → Except Fault β} (h : ∀ b a, Mild (f b a)) (items : List α) (b : β) :
    Mild (items.foldlM f b) := by
  induction items generalizing b with
  | nil => exact ok b
  | cons item items ih =>
      rw [List.foldlM_cons]
      exact (h b item).bind ih

end Mild

namespace Action

/-- The faults that an action ends in have a property, in whatever session it is done. -/
def FailsOnly {α : Type} (p : Fault → Prop) (action : Action α) : Prop :=
  ∀ session fault, (action.run.run session).1 = .error fault → p fault

/-- An action that ends in no rejection of a line. -/
abbrev Mild {α : Type} (action : Action α) : Prop := FailsOnly (·.isSyntax = false) action

/-- An action that always gives a result. -/
abbrev Total {α : Type} (action : Action α) : Prop := FailsOnly (fun _ => False) action

/-- A total action has a result in every session. -/
theorem Total.run {α : Type} {action : Action α} (h : Total action) (session : Session) :
    ∃ a later, action.run.run session = (.ok a, later) := by
  rcases hRun : action.run.run session with ⟨fault | a, later⟩
  · have hFault := h session fault
    rw [hRun] at hFault
    exact (hFault rfl).elim
  · exact ⟨a, later, rfl⟩

namespace FailsOnly

variable {α β : Type} {p : Fault → Prop}

theorem pure (a : α) : FailsOnly p (Pure.pure a) := by
  intro session fault hFault
  cases hFault

theorem throw {fault : Fault} (h : p fault) : FailsOnly p (MonadExcept.throw fault : Action α) := by
  intro session other hSame
  cases hSame
  exact h

theorem ofExcept {x : Except Fault α} (h : ∀ fault, x = .error fault → p fault) :
    FailsOnly p (ofExcept x) := by
  intro session
  rw [run_ofExcept]
  exact h

theorem ask {question : Volume → Except Fault α} (h : ∀ v fault, question v = .error fault → p fault) :
    FailsOnly p (ask question) := by
  intro session
  rw [run_ask]
  exact h session.volume

theorem bind {first : Action α} {next : α → Action β} (hFirst : FailsOnly p first)
    (hNext : ∀ a, FailsOnly p (next a)) : FailsOnly p (first >>= next) := by
  intro session fault hFault
  have hLeft := hFirst session
  rw [run_bind] at hFault
  rcases hRun : first.run.run session with ⟨other | a, later⟩
  · rw [hRun] at hFault hLeft
    cases hFault
    exact hLeft fault rfl
  · rw [hRun] at hFault
    exact hNext a later fault hFault

theorem throw_bind {fault : Fault} {next : α → Action β} (h : p fault) :
    FailsOnly p (MonadExcept.throw fault >>= next) := by
  intro session other hSame
  cases hSame
  exact h

theorem volume : FailsOnly p volume := by
  intro session fault hFault
  cases hFault

theorem get : FailsOnly p (MonadState.get : Action Session) := by
  intro session fault hFault
  cases hFault

theorem modify (change : Session → Session) : FailsOnly p (modify change : Action PUnit) := by
  intro session fault hFault
  cases hFault

theorem warn (t : Text) : FailsOnly p (warn t) := modify _

theorem observe (action : Action α) : FailsOnly p action.observe := by
  intro session fault hFault
  cases hFault

theorem change {step : Volume → Instant → Except Fault (α × Volume)}
    (h : ∀ v now fault, step v now = .error fault → p fault) : FailsOnly p (change step) := by
  rw [Action.change]
  exact get.bind fun session => (ofExcept (h session.volume session.now)).bind fun made =>
    (modify _).bind fun _ => pure made.1

theorem changePartly {step : Volume → Instant → Except Fault α × Volume}
    (h : ∀ v now fault, (step v now).1 = .error fault → p fault) : FailsOnly p (changePartly step) := by
  rw [Action.changePartly]
  exact get.bind fun session => (modify _).bind fun _ => ofExcept (h session.volume session.now)

/-- What a failure becomes decides, and it may depend on the failure. -/
theorem rewording {words : Fault → Fault} {action : Action α} (hAction : FailsOnly p action)
    (hWords : ∀ fault, p fault → p (words fault)) : FailsOnly p (rewording words action) := by
  intro session fault hFault
  have hFirst := hAction session
  rw [Action.rewording, run_tryCatch] at hFault
  rcases hRun : action.run.run session with ⟨other | a, later⟩
  · rw [hRun] at hFault hFirst
    cases hFault
    rcases other.reworded_eq words with hSame | hOther
    · rw [hSame]
      exact hFirst other rfl
    · rw [hOther]
      exact hWords other (hFirst other rfl)
  · rw [hRun] at hFault
    cases hFault

/-- A command passes a failure on under its own name. -/
theorem within {action : Action α} (hAction : Mild action) (command : Text) :
    Mild (within command action) :=
  hAction.rewording fun _ h => h

/-- A failure that a command reports as its own is never a rejection. -/
theorem failed (command : Text) (action : Action α) : Mild (Action.rewording (.failed command) action) := by
  intro session fault hFault
  rw [Action.rewording, run_tryCatch] at hFault
  rcases hRun : action.run.run session with ⟨other | a, later⟩
  · rw [hRun] at hFault
    cases hFault
    cases other <;> rfl
  · rw [hRun] at hFault
    cases hFault

theorem mapM {act : α → Action β} (h : ∀ a, FailsOnly p (act a)) (items : List α) :
    FailsOnly p (items.mapM act) := by
  induction items with
  | nil => exact pure []
  | cons item items ih =>
      rw [List.mapM_cons]
      exact (h item).bind fun b => ih.bind fun later => pure (b :: later)

theorem forM {act : α → Action PUnit} (h : ∀ a, FailsOnly p (act a)) (items : List α) :
    FailsOnly p (items.forM act) :=
  forM_of_closed (P := FailsOnly p) (pure PUnit.unit) (fun hFirst hNext => hFirst.bind fun _ => hNext) fun item _ => h item

theorem foldrM {act : α → β → Action β} {items : List α} (h : ∀ a ∈ items, ∀ b, FailsOnly p (act a b))
    (b : β) : FailsOnly p (items.foldrM act b) := by
  induction items with
  | nil => exact pure b
  | cons item items ih =>
      obtain ⟨hItem, hItems⟩ := List.forall_mem_cons.mp h
      rw [List.foldrM_cons]
      exact (ih hItems).bind hItem

end FailsOnly

end Action

end TreeShell
