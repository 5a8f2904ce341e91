import TreeShell.Builtin.All
import TreeShell.Proofs.Line.Span
import TreeShell.Proofs.Shell.Quoting
import TreeShell.Proofs.Shell.Sequence

/-! The substitutions of a line. Their commands are run from the last one to the first, each on what
the one behind it has left, and every output stands in its own place. In the order of the line they
would do the same if no two of them got in each other's way, but not where one reads what another
has written. -/
namespace TreeShell

namespace Action

variable {α β γ : Type}

/-- Two actions that can be done in either order. -/
def Commutes (first : Action α) (second : Action β) : Prop :=
  (do
    let a ← first
    let b ← second
    return (a, b)) = (do
    let b ← second
    let a ← first
    return (a, b))

/-- Two actions that commute may be exchanged in front of anything that uses both results. -/
theorem Commutes.bind {first : Action α} {second : Action β} (h : Commutes first second)
    (next : α → β → Action γ) : (do
      let a ← first
      let b ← second
      next a b) = (do
      let b ← second
      let a ← first
      next a b) := by
  have hNext := congrArg (· >>= fun found : α × β => next found.1 found.2) h
  simpa only [bind_assoc, pure_bind] using hNext

/-- What commutes with each action of a list commutes with the list. -/
theorem Commutes.mapM {first : Action α} {f : β → Action γ} {l : List β}
    (h : ∀ b ∈ l, Commutes first (f b)) : Commutes first (l.mapM f) := by
  induction l with
  | nil => simp only [Commutes, List.mapM_nil, pure_bind]
  | cons b l ih =>
      have hHead : Commutes first (f b) := h b (List.mem_cons_self ..)
      have hTail : Commutes first (l.mapM f) := ih fun other hMem => h other (List.mem_cons_of_mem _ hMem)
      rw [Commutes]
      simp only [List.mapM_cons, bind_assoc, pure_bind]
      rw [hHead.bind fun a c => l.mapM f >>= fun cs => pure (a, c :: cs)]
      refine bind_congr fun c => ?_
      exact hTail.bind fun a cs => pure (a, c :: cs)

/-- Actions with outcomes that do not depend on the session can be done in either order when their
changes of the session can be made in either order. -/
theorem Commutes.of_run {first : Action α} {second : Action β} {a : α} {b : β}
    {change change' : Session → Session}
    (hFirst : ∀ session, first.run.run session = (.ok a, change session))
    (hSecond : ∀ session, second.run.run session = (.ok b, change' session))
    (h : ∀ session, change' (change session) = change (change' session)) :
    Commutes first second := by
  refine funext fun session => ?_
  change (first >>= fun a => second >>= fun b => pure (a, b) : Action (α × β)).run.run session =
    (second >>= fun b => first >>= fun a => pure (a, b) : Action (α × β)).run.run session
  rw [run_bind_ok (hFirst session), run_bind_ok (hSecond _), run_bind_ok (hSecond session),
    run_bind_ok (hFirst _)]
  change (Except.ok (a, b), _) = (Except.ok (a, b), _)
  rw [h]

/-- Actions that do not get in each other's way give the same from the last one to the first. -/
theorem mapM_reverse {f : α → Action β} {l : List α}
    (h : l.Pairwise fun a b => Commutes (f a) (f b)) :
    (do
      let found ← l.reverse.mapM f
      return found.reverse) = l.mapM f := by
  induction l with
  | nil => rfl
  | cons a l ih =>
      rw [List.pairwise_cons] at h
      have hTail := congrArg (· >>= fun found => f a >>= fun b => pure (b :: found)) (ih h.2)
      simp only [bind_assoc, pure_bind] at hTail
      have hHead := (Commutes.mapM h.1).bind fun b found => pure (b :: found)
      simp only [List.reverse_cons, List.mapM_append, List.mapM_cons, List.mapM_nil, bind_assoc, pure_bind,
        List.reverse_append, List.reverse_nil, List.nil_append, List.singleton_append]
      rw [hTail, ← hHead]

end Action

namespace Shell

open Substitution (Span spans warnings splice spliceOne filled)

/-- The output of the command in a span, which is expanded before it runs. -/
def outputOf (shell : Shell) (depth : Int) (span : Span) : Action Text := do
  let command ← shell.expand (depth + 1) span.inner
  shell.registry.capture command

/-- Nothing is done to a line in which no substitution can stand. -/
theorem expand_of_no_occurrence (shell : Shell) (depth : Int) {line : Text}
    (h : Text.occursIn [chr '$', chr '('] line = false) : shell.expand depth line = pure line := by
  rw [expand, h]
  rfl

/-- What is said of a line whose substitutions are nested too deep. -/
def depthWarning (shell : Shell) (depth : Int) : Text :=
  "Substitution depth " ++ Text.ofInt depth ++ " exceeds " ++ Text.ofInt shell.maxDepth ++
    ", leaving text unexpanded"

/-- Beyond the largest depth nothing is expanded, and a warning says so. -/
theorem expand_of_deep (shell : Shell) {depth : Int} (hDepth : shell.maxDepth < depth) {line : Text}
    (hOccurs : Text.occursIn [chr '$', chr '('] line = true) :
    shell.expand depth line = (do
      Action.warn (shell.depthWarning depth)
      return line) := by
  rw [expand, hOccurs, if_neg (by decide), if_pos hDepth]
  rfl

/-- Every output is put into the place of its span before the span in front of it runs. -/
theorem expand_eq (shell : Shell) {depth : Int} (hDepth : depth ≤ shell.maxDepth) (line : Text) :
    shell.expand depth line = (do
      (warnings line).forM Action.warn
      (spans line).1.foldrM (fun span result => do
        let output ← shell.outputOf depth span
        return splice result span output) line) := by
  cases hOccurs : Text.occursIn [chr '$', chr '('] line with
  | false =>
      have hNone : spans line = ([], none) := Substitution.spansFrom_of_no_occurrence hOccurs ..
      rw [shell.expand_of_no_occurrence depth hOccurs, warnings, hNone]
      rfl
  | true =>
      change shell.answer (.expand depth line) = _
      rw [answer_eq_body, body, hOccurs, if_neg (by decide), if_neg (by omega)]
      simp only [outputOf, bind_assoc]
      rfl

/-- A line with one substitution. -/
theorem expand_of_span (shell : Shell) {depth : Int} (hDepth : depth ≤ shell.maxDepth) {line : Text}
    {span : Span} (hSpans : spans line = ([span], none)) :
    shell.expand depth line = (do
      let output ← shell.outputOf depth span
      return splice line span output) := by
  rw [shell.expand_eq hDepth, warnings, hSpans]
  simp [List.foldrM]

/-- A command that holds no substitution is run as it is. -/
theorem outputOf_of_no_occurrence (shell : Shell) (depth : Int) {span : Span}
    (h : Text.occursIn [chr '$', chr '('] span.inner = false) :
    shell.outputOf depth span = shell.registry.capture span.inner := by
  rw [outputOf, shell.expand_of_no_occurrence _ h, pure_bind]

/-- Replaces the substitutions of a line by the outputs of their commands, run in the order of the
line. -/
def expandForwards (shell : Shell) (depth : Int) (line : Text) : Action Text := do
  (warnings line).forM Action.warn
  let outputs ← (spans line).1.mapM (shell.outputOf depth)
  return filled line ((spans line).1.zip outputs)

/-- Replaces the substitutions of a line by the outputs of their commands, the last one being run
first. -/
def expandBackwards (shell : Shell) (depth : Int) (line : Text) : Action Text := do
  (warnings line).forM Action.warn
  let outputs ← (spans line).1.reverse.mapM (shell.outputOf depth)
  return filled line ((spans line).1.zip outputs.reverse)

/-- To put outputs into a line as they come is to put them there when all of them have come. -/
theorem foldrM_splice (f : Span → Action Text) (found : List Span) (line : Text) :
    found.foldrM (fun span result => do
      let output ← f span
      return splice result span output) line = (do
      let outputs ← found.reverse.mapM f
      return (found.zip outputs.reverse).foldr spliceOne line) := by
  induction found with
  | nil => rfl
  | cons span found ih =>
      simp only [List.foldrM_cons, ih, List.reverse_cons, List.mapM_append, List.mapM_cons, List.mapM_nil,
        bind_assoc, pure_bind, List.reverse_append, List.reverse_nil, List.nil_append,
        List.singleton_append, List.zip_cons_cons, List.foldr_cons, spliceOne]

theorem expand_eq_expandBackwards (shell : Shell) {depth : Int} (hDepth : depth ≤ shell.maxDepth)
    (line : Text) : shell.expand depth line = shell.expandBackwards depth line := by
  rw [shell.expand_eq hDepth, expandBackwards, foldrM_splice]
  simp only [Substitution.foldr_spliceOne_spans]

/-- The commands of a line's substitutions are run from the last one to the first. Where they do not
get in each other's way, this is the same as to run them in the order of the line. What is nested too
deep stays as it is, and nothing is run. -/
theorem expand_backwards (shell : Shell) (depth : Int) (line : Text) :
    (depth ≤ shell.maxDepth → shell.expand depth line = shell.expandBackwards depth line ∧
      ((spans line).1.Pairwise (fun first second =>
          Action.Commutes (shell.outputOf depth first) (shell.outputOf depth second)) →
        shell.expand depth line = shell.expandForwards depth line)) ∧
    (shell.maxDepth < depth → Text.occursIn [chr '$', chr '('] line = true →
      shell.expand depth line = (do
        Action.warn (shell.depthWarning depth)
        return line)) := by
  refine ⟨fun hDepth => ?_, fun hDepth hOccurs => shell.expand_of_deep hDepth hOccurs⟩
  have hBackwards := shell.expand_eq_expandBackwards hDepth line
  refine ⟨hBackwards, fun hApart => ?_⟩
  rw [hBackwards, expandBackwards, expandForwards, ← Action.mapM_reverse hApart]
  simp only [bind_assoc, pure_bind]

/-- Two commands that print, and a shell that expands nothing. -/
theorem expand_backwards_twice :
    let shell := Shell.mk Builtin.registry defaultMaxDepth
    shell.expand 0 "$(echo a)$(echo b)" = shell.expandBackwards 0 "$(echo a)$(echo b)" ∧
    shell.expand 0 "$(echo a)$(echo b)" = shell.expandForwards 0 "$(echo a)$(echo b)" ∧
    (Shell.mk Builtin.registry (-1)).expand 0 "$(echo a)$(echo b)" = (do
      Action.warn "Substitution depth 0 exceeds -1, leaving text unexpanded"
      return "$(echo a)$(echo b)") := by
  intro shell
  have hSpans : spans "$(echo a)$(echo b)" = ([⟨0, 9, "echo a"⟩, ⟨9, 18, "echo b"⟩], none) := by decide
  have hFirst (session : Session) : (shell.outputOf 0 ⟨0, 9, "echo a"⟩).run.run session =
      (.ok [chr 'a'], { session with exitCode := 0 }) := by
    rw [shell.outputOf_of_no_occurrence 0 (by decide)]
    have hWords : OneCommand "echo a" [.plain "echo", .plain "a"] := .of_segments rfl (by decide)
    exact shell.registry.run_capture hWords rfl rfl
  have hSecond (session : Session) : (shell.outputOf 0 ⟨9, 18, "echo b"⟩).run.run session =
      (.ok [chr 'b'], { session with exitCode := 0 }) := by
    rw [shell.outputOf_of_no_occurrence 0 (by decide)]
    have hWords : OneCommand "echo b" [.plain "echo", .plain "b"] := .of_segments rfl (by decide)
    exact shell.registry.run_capture hWords rfl rfl
  obtain ⟨hBackwards, hForwards⟩ := (expand_backwards shell 0 "$(echo a)$(echo b)").1 (by decide)
  refine ⟨hBackwards, hForwards ?_, (expand_backwards _ 0 _).2 (by decide) (by decide)⟩
  rw [hSpans]
  exact List.pairwise_pair.mpr (.of_run hFirst hSecond fun _ => rfl)

/-- A line that makes a file and lists where it is made. -/
def touchThenList : Text := "$(touch /x)$(ls /)"

theorem spans_touchThenList :
    spans touchThenList = ([⟨0, 11, "touch /x"⟩, ⟨11, 18, "ls /"⟩], none) := by decide

theorem oneCommand_touch : OneCommand "touch /x" [.plain "touch", .plain "/x"] :=
  .of_segments rfl (by decide)

theorem oneCommand_ls : OneCommand "ls /" [.plain "ls", .plain "/"] :=
  .of_segments rfl (by decide)

/-- Where a command reads what another has written, the order of the line is not that of the runs:
the directory is listed before the file is made. -/
theorem exists_backwards_output :
    let shell := Shell.mk Builtin.registry defaultMaxDepth
    ((shell.expand 0 touchThenList).run.run Registry.untouched).1.toOption = some [] ∧
    ((shell.expandForwards 0 touchThenList).run.run Registry.untouched).1.toOption = some [chr 'x'] ∧
    ¬ ∀ (line : Text) (session : Session),
      (shell.expand 0 line).run.run session = (shell.expandForwards 0 line).run.run session := by
  intro shell
  have hTouch : shell.outputOf 0 ⟨0, 11, "touch /x"⟩ = shell.registry.capture "touch /x" :=
    shell.outputOf_of_no_occurrence 0 (by decide)
  have hList : shell.outputOf 0 ⟨11, 18, "ls /"⟩ = shell.registry.capture "ls /" :=
    shell.outputOf_of_no_occurrence 0 (by decide)
  rw [Registry.capture, Registry.runPlain_of_oneCommand _ oneCommand_touch] at hTouch
  rw [Registry.capture, Registry.runPlain_of_oneCommand _ oneCommand_ls] at hList
  have hBackwards : ((shell.expand 0 touchThenList).run.run Registry.untouched).1.toOption =
      some [] := by
    rw [shell.expand_eq_expandBackwards (by decide), expandBackwards, Substitution.warnings,
      spans_touchThenList]
    simp only [List.reverse_cons, List.reverse_nil, List.nil_append, List.singleton_append,
      List.mapM_cons, List.mapM_nil, hTouch, hList]
    decide +kernel
  have hForwards : ((shell.expandForwards 0 touchThenList).run.run Registry.untouched).1.toOption =
      some [chr 'x'] := by
    rw [expandForwards, Substitution.warnings, spans_touchThenList]
    simp only [List.mapM_cons, List.mapM_nil, hTouch, hList]
    decide +kernel
  refine ⟨hBackwards, hForwards, fun hSame => ?_⟩
  rw [hSame, hForwards] at hBackwards
  cases hBackwards

end Shell

end TreeShell
