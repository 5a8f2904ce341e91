import TreeShell.Fault

/-! Computations that end in a fault or a result: taken apart when they gave a result, run from a
state that outlasts a fault, and two of them side by side. -/
namespace TreeShell

theorem ok_bind {α β : Type} (a : α) (f : α → Except Fault β) : (Except.ok a >>= f) = f a := rfl

/-- A computation that gives a result does so at each of its parts. -/
theorem bind_eq_ok {ε α β : Type} {x : Except ε α} {f : α → Except ε β} {result : β} :
    (x >>= f) = .ok result ↔ ∃ a, x = .ok a ∧ f a = .ok result := by
  cases x with
  | error fault => exact ⟨nofun, nofun⟩
  | ok a => exact ⟨fun h => ⟨a, rfl, h⟩, fun ⟨_, hSame, h⟩ => by cases hSame; exact h⟩

/-- A check that is passed before the rest. -/
theorem check_eq_ok {β : Type} {c : Prop} [Decidable c] {fault : Fault}
    {f : PUnit → Except Fault β} {result : β} :
    (if c then throw fault >>= f else f ⟨⟩) = .ok result ↔ ¬ c ∧ f ⟨⟩ = .ok result := by
  by_cases h : c
  · rw [if_pos h]
    exact ⟨nofun, fun hf => absurd h hf.1⟩
  · rw [if_neg h]
    exact ⟨fun hf => ⟨h, hf⟩, fun hf => hf.2⟩

theorem map_eq_ok {α β : Type} {x : Except Fault α} {f : α → β} {result : β} :
    x.map f = .ok result ↔ ∃ a, x = .ok a ∧ result = f a := by
  cases x with
  | error fault => exact ⟨nofun, nofun⟩
  | ok a =>
      constructor
      · intro h
        exact ⟨a, rfl, (Except.ok.inj h).symm⟩
      · rintro ⟨_, ⟨⟩, rfl⟩
        rfl

/-- What is made of a fault leaves the results alone. -/
theorem mapError_eq_ok {α : Type} {x : Except Fault α} {change : Fault → Fault} {result : α} :
    x.mapError change = .ok result ↔ x = .ok result := by
  cases x with
  | error fault => exact ⟨nofun, nofun⟩
  | ok a => exact Iff.rfl

theorem mapError_bind {α β : Type} (x : Except Fault α) (f : α → Except Fault β)
    (change : Fault → Fault) :
    (x >>= f).mapError change = x.mapError change >>= fun a => (f a).mapError change := by
  cases x <;> rfl

namespace Fault

/-- A fault with another path in the place of the one that it is about. -/
def naming (path : Text) : Fault → Fault
  | .path trouble _ => .path trouble path
  | fault => fault

theorem reworded_eq (words : Fault → Fault) (fault : Fault) :
    fault.reworded words = fault ∨ fault.reworded words = words fault := by
  cases fault with
  | unencodable position surrogates => exact Or.inl rfl
  | _ => exact Or.inr rfl

theorem kind_naming (path : Text) (fault : Fault) : (fault.naming path).kind = fault.kind := by
  cases fault <;> rfl

theorem mapError_kind_naming {α : Type} (path : Text) (x : Except Fault α) :
    (x.mapError (naming path)).mapError kind = x.mapError kind := by
  cases x with
  | error fault => exact congrArg Except.error (kind_naming path fault)
  | ok a => rfl

end Fault

theorem eq_ok_of_toOption {α : Type} {x : Except Fault α} {a : α} (h : x.toOption = some a) :
    x = .ok a := by
  cases x with
  | error fault => cases h
  | ok b => exact congrArg Except.ok (Option.some.inj h)

theorem exists_state_of_toOption {α σ : Type} {x : Except Fault α × σ} {a : α}
    (h : x.1.toOption = some a) : ∃ s, x = (.ok a, s) :=
  ⟨x.2, Prod.ext (eq_ok_of_toOption h) rfl⟩

/-- What is seen of a result shows that there is one. -/
theorem exists_ok_of_map_toOption {α β : Type} {x : Except Fault α} {f : α → β} {seen : β}
    (h : x.toOption.map f = some seen) : ∃ a, x = .ok a ∧ f a = seen := by
  cases x with
  | error fault => cases h
  | ok a => exact ⟨a, rfl, Option.some.inj h⟩

/-- What doing nothing has, and one operation after another keeps, a loop over a list has: the
induction of every such property of loops. -/
theorem forM_of_closed {m : Type → Type} [Monad m] {P : m PUnit → Prop} (hNone : P (pure ⟨⟩))
    (hThen : ∀ {first next : m PUnit}, P first → P next → P (first >>= fun _ => next))
    {α : Type} {entries : List α} {each : α → m PUnit} (hEach : ∀ entry ∈ entries, P (each entry)) :
    P (entries.forM each) := by
  induction entries with
  | nil => exact hNone
  | cons entry entries ih =>
      obtain ⟨hEntry, hRest⟩ := List.forall_mem_cons.mp hEach
      exact hThen hEntry (ih hRest)

section Run

variable {σ α β : Type}

/-- The second action starts in the state that the first one left, and is not run after a fault. -/
theorem run_bind (first : ExceptT Fault (StateM σ) α) (next : α → ExceptT Fault (StateM σ) β) (s : σ) :
    (first >>= next).run.run s =
      match first.run.run s with
      | (.ok a, later) => (next a).run.run later
      | (.error fault, later) => (.error fault, later) := by
  change ExceptT.bindCont next (first.run.run s).1 (first.run.run s).2 = _
  obtain ⟨result, later⟩ := first.run.run s
  cases result <;> rfl

/-- Behind work that gives a result the next work goes on. -/
theorem run_bind_ok {first : ExceptT Fault (StateM σ) α} {s later : σ} {a : α}
    (h : first.run.run s = (.ok a, later)) (next : α → ExceptT Fault (StateM σ) β) :
    (first >>= next).run.run s = (next a).run.run later := by
  rw [run_bind, h]

theorem run_get_bind (next : σ → ExceptT Fault (StateM σ) β) (s : σ) :
    (get >>= next).run.run s = (next s).run.run s := rfl

theorem run_modify_bind (change : σ → σ) (next : PUnit → ExceptT Fault (StateM σ) β) (s : σ) :
    (modify change >>= next).run.run s = (next ⟨⟩).run.run (change s) := rfl

/-- A handler starts in the state that the failing action left: nothing is rolled back. -/
theorem run_tryCatch (first : ExceptT Fault (StateM σ) α) (handle : Fault → ExceptT Fault (StateM σ) α)
    (s : σ) :
    (tryCatch first handle).run.run s =
      match first.run.run s with
      | (.ok a, later) => (.ok a, later)
      | (.error fault, later) => (handle fault).run.run later := by
  obtain ⟨result, later, hFirst⟩ : ∃ result later, first.run.run s = (result, later) := ⟨_, _, rfl⟩
  rw [hFirst]
  change StateT.run first s = (result, later) at hFirst
  simp only [tryCatch, tryCatchThe, MonadExceptOf.tryCatch, ExceptT.tryCatch, ExceptT.run_mk,
    StateT.run_bind, hFirst]
  cases result <;> rfl

/-- Work that is done for each of a list in turn keeps what is known of the part that is done. -/
theorem exists_run_forM {entries : List α} {each : α → ExceptT Fault (StateM σ) PUnit}
    {P : List α → σ → Prop}
    (hEach : ∀ front entry back s, entries = front ++ entry :: back → P front s →
      ∃ later, (each entry).run.run s = (.ok ⟨⟩, later) ∧ P (front ++ [entry]) later)
    {s : σ} (hStart : P [] s) :
    ∃ later, (entries.forM each).run.run s = (.ok ⟨⟩, later) ∧ P entries later := by
  have hFrom : ∀ (rest front : List α) (s : σ), entries = front ++ rest → P front s →
      ∃ later, (rest.forM each).run.run s = (.ok ⟨⟩, later) ∧ P entries later := by
    intro rest
    induction rest with
    | nil =>
        intro front s hEntries hFront
        rw [List.append_nil] at hEntries
        exact ⟨s, rfl, hEntries ▸ hFront⟩
    | cons entry rest ih =>
        intro front s hEntries hFront
        obtain ⟨middle, hFirst, hMiddle⟩ := hEach front entry rest s hEntries hFront
        obtain ⟨later, hRest, hLater⟩ := ih (front ++ [entry]) middle (by simp [hEntries]) hMiddle
        refine ⟨later, ?_, hLater⟩
        change (each entry >>= fun _ => rest.forM each).run.run s = _
        rw [run_bind_ok hFirst, hRest]
  exact hFrom entries [] s rfl hStart

/-- Work that is done for each of a list in turn ends where it fails first. -/
theorem run_forM_error {front back : List α} {entry : α}
    {each : α → ExceptT Fault (StateM σ) PUnit} {s middle later : σ} {fault : Fault}
    (hFront : (front.forM each).run.run s = (.ok ⟨⟩, middle))
    (hEntry : (each entry).run.run middle = (.error fault, later)) :
    ((front ++ entry :: back).forM each).run.run s = (.error fault, later) := by
  rw [List.forM_eq_forM, List.forM_append, ← List.forM_eq_forM, run_bind_ok hFront]
  change (each entry >>= fun _ => back.forM each).run.run middle = _
  rw [run_bind, hEntry]

end Run

/-- Two computations end alike: in the same fault, or in related results. -/
inductive EndsAlike {α β : Type} (r : α → β → Prop) : Except Fault α → Except Fault β → Prop where
  | fault (fault : Fault) : EndsAlike r (.error fault) (.error fault)
  | result {a : α} {b : β} (h : r a b) : EndsAlike r (.ok a) (.ok b)

section EndsAlike

variable {α β γ δ : Type} {r : α → β → Prop} {s : γ → δ → Prop}

/-- What is known of a result on the left is known of the results side by side. -/
theorem EndsAlike.andLeft {p : α → Prop} {x : Except Fault α} {y : Except Fault β}
    (h : EndsAlike r x y) (hp : ∀ a, x = .ok a → p a) :
    EndsAlike (fun a b => r a b ∧ p a) x y := by
  cases h with
  | fault fault => exact .fault fault
  | result h => exact .result ⟨h, hp _ rfl⟩

/-- Sequences end alike if their parts do. -/
theorem EndsAlike.bind {x : Except Fault α} {y : Except Fault β} {f : α → Except Fault γ}
    {g : β → Except Fault δ} (h : EndsAlike r x y)
    (hNext : ∀ a b, r a b → EndsAlike s (f a) (g b)) : EndsAlike s (x >>= f) (y >>= g) := by
  cases h with
  | fault fault => exact .fault fault
  | result h => exact hNext _ _ h

theorem EndsAlike.map {x : Except Fault α} {y : Except Fault β} {f : α → γ} {g : β → δ}
    (h : EndsAlike r x y) (hNext : ∀ a b, r a b → s (f a) (g b)) :
    EndsAlike s (x.map f) (y.map g) := by
  cases h with
  | fault fault => exact .fault fault
  | result h => exact .result (hNext _ _ h)

/-- The same check stands before both. -/
theorem EndsAlike.check {c d : Prop} [Decidable c] [Decidable d] {fault : Fault}
    {f : PUnit → Except Fault γ} {g : PUnit → Except Fault δ} (hSame : c ↔ d)
    (h : ¬ c → EndsAlike s (f ⟨⟩) (g ⟨⟩)) :
    EndsAlike s (if c then throw fault >>= f else f ⟨⟩) (if d then throw fault >>= g else g ⟨⟩) := by
  by_cases hc : c
  · rw [if_pos hc, if_pos (hSame.mp hc)]
    exact .fault fault
  · rw [if_neg hc, if_neg (fun hd => hc (hSame.mpr hd))]
    exact h hc

theorem EndsAlike.eq {x y : Except Fault α} (h : EndsAlike (· = ·) x y) : x = y := by
  cases h with
  | fault fault => rfl
  | result h => rw [h]

theorem EndsAlike.toOption {x : Except Fault α} {y : Except Fault β} (h : EndsAlike r x y) :
    Option.Rel r x.toOption y.toOption := by
  cases h with
  | fault fault => exact .none
  | result h => exact .some h

end EndsAlike

end TreeShell
