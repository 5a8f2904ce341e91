import TreeShell.Builtin.All
import TreeShell.Proofs.Volume.Mild

/-! No command of the shell rejects a line: what it reports is about its words, its files or its
input, and never about how the line is written. -/
namespace TreeShell

/-- A command that never fails with a rejection of the line. -/
def Command.Mild (command : Command) : Prop :=
  ∀ words stdin, Action.Mild (command.run words stdin)

/-- A registry of commands that never do. -/
def Registry.Mild (registry : Registry) : Prop := ∀ entry ∈ registry, entry.2.Mild

namespace Registry.Mild

theorem register {registry : Registry} {command : Command} (hRegistry : registry.Mild)
    (hCommand : command.Mild) (name : Text) : (registry.register command name).Mild := by
  intro entry hEntry
  rcases List.mem_append.mp hEntry with hOld | hNew
  · exact hRegistry entry (List.mem_filter.mp hOld).1
  · rw [List.mem_singleton.mp hNew]
    exact hCommand

/-- A registry stays mild when mild commands are added. -/
theorem registerAll {registry : Registry} {commands : List Command} (hRegistry : registry.Mild)
    (hCommands : ∀ command ∈ commands, command.Mild) : (registry.registerAll commands).Mild := by
  induction commands generalizing registry with
  | nil => exact hRegistry
  | cons command commands ih =>
      obtain ⟨hCommand, hRest⟩ := List.forall_mem_cons.mp hCommands
      exact ih (hRegistry.register hCommand []) hRest

/-- A command that is found is mild. -/
theorem find {registry : Registry} {name : Text} {command : Command} (hRegistry : registry.Mild)
    (hFind : registry.find name = .ok command) : command.Mild := by
  rw [Registry.find] at hFind
  split at hFind
  · rename_i hLookup
    cases hFind
    obtain ⟨before, behind, rfl, _⟩ := List.lookup_eq_some_iff.mp hLookup
    exact hRegistry (name, command) (by simp)
  · cases hFind

end Registry.Mild

namespace Builtin

open Options

theorem mild_read (spec : Spec) (words : List Text) : TreeShell.Mild (spec.read words) := by
  rw [Spec.read]
  split
  · exact .ok _
  · exact .ok _
  · exact .error rfl

theorem mild_prepared (spec : Spec) (acceptsInput : Bool) (prepare : List Text → List Text)
    {work : Arguments → Option Text → Action Text}
    (h : ∀ arguments stdin, Action.Mild (work arguments stdin)) :
    (prepared spec acceptsInput prepare work).Mild := by
  intro words stdin
  refine .bind (.ofExcept (mild_read spec _)) ?_
  intro request
  cases request with
  | help text => exact .pure text
  | work arguments => exact h arguments stdin

theorem mild_plain (spec : Spec) {work : Arguments → Action Text}
    (h : ∀ arguments, Action.Mild (work arguments)) : (plain spec work).Mild :=
  mild_prepared spec false id fun arguments _ => h arguments

theorem mild_filter (spec : Spec) {work : Arguments → Option Text → Action Text}
    (h : ∀ arguments stdin, Action.Mild (work arguments stdin)) : (filter spec work).Mild :=
  mild_prepared spec true id h

theorem mild_readFile (command path : Text) : Action.Mild (readFile command path) :=
  .within (.ask fun v => v.mild_contentOf path) command

theorem mild_inputs (command : Text) (files : List Text) (stdin : Option Text) :
    Action.Mild (inputs command files stdin) := by
  unfold inputs
  split
  · exact .throw rfl
  · exact .pure _
  · refine .mapM ?_ _
    intro path
    split
    · exact .pure _
    · exact .bind (mild_readFile command path) fun content => .pure _

/-- A command that shows what it makes of its inputs. -/
theorem mild_shown (command : Text) (files : List Text) (stdin : Option Text)
    (display : List (Text × Text) → Text) :
    Action.Mild (inputs command files stdin >>= fun found => pure (display found)) :=
  .bind (mild_inputs command files stdin) fun _ => .pure _

section Content

theorem mild_cat : cat.Mild := mild_filter _ fun _ stdin => mild_shown _ _ stdin _

theorem mild_head : head.Mild := mild_filter _ fun _ stdin => mild_shown _ _ stdin _

theorem mild_tailPart (t : Text) : TreeShell.Mild (TailPart.parse t) := by
  unfold TailPart.parse
  split
  · exact .error rfl
  · split
    · exact .ok _
    · exact .error rfl
  · split
    · exact .ok _
    · exact .error rfl

theorem mild_tail : tail.Mild := by
  apply mild_filter
  intro arguments stdin
  refine .bind (.ofExcept (mild_tailPart _)) ?_
  intro part
  exact mild_shown _ _ stdin _

theorem mild_wc : wc.Mild := by
  apply mild_filter
  intro arguments stdin
  refine .bind (mild_inputs _ _ stdin) fun found => .bind (.ofExcept ?_) fun _ => .pure _
  refine TreeShell.Mild.mapM (fun input => ?_) found
  exact .bind (.bind (Volume.mild_measure input.2) fun _ => .ok _) fun _ => .ok _

theorem mild_sort : sort.Mild := mild_filter _ fun _ stdin => mild_shown _ _ stdin _

theorem mild_uniq : uniq.Mild := mild_filter _ fun _ stdin => mild_shown _ _ stdin _

theorem mild_writing (w : Redirection.Writing) : Action.Mild (Redirection.write w) :=
  .bind (.changePartly fun v now => v.mild_store now _ _ _) fun _ => .pure _

theorem mild_tee : tee.Mild := by
  apply mild_filter
  intro arguments stdin
  exact .bind (.forM (fun path => mild_writing _) _) fun _ => .pure _

end Content

section Directory

theorem mild_pwd : pwd.Mild := mild_plain _ fun _ => .bind .volume fun _ => .pure _

theorem mild_cd : cd.Mild := by
  apply mild_plain
  intro arguments
  refine .bind (.within (.change fun v _ => ?_) _) fun _ => .pure _
  exact (v.mild_changeDirectory _).map _

theorem mild_list (v : Volume) (all long : Bool) (paths : List Text) :
    TreeShell.Mild (list v all long paths) := by
  have hEntry (entry : Text × InodeId) : TreeShell.Mild (listEntry v long entry) := by
    unfold listEntry
    split
    · exact .bind (Volume.mild_size _) fun _ => .ok _
    · exact .ok _
  have hTarget (path : Text) : TreeShell.Mild (listTarget v long path) := by
    rw [listTarget]
    split
    · exact .error rfl
    · exact .ite ((hEntry _).map _) (.ok _)
  rw [list]
  refine .bind (.mapM hTarget paths) fun targets => ?_
  exact .bind (.mapM (fun _ => .bind (.mapM hEntry _) fun _ => .ok _) _) fun _ => .ok _

theorem mild_ls : ls.Mild := mild_plain _ fun _ => .ask fun v => mild_list v _ _ _

end Directory

section Tree

/-- Where an attempt failed, what kept it from succeeding is passed on. -/
theorem mild_attempt {α : Type} (attempt place : Text) {action : Action α} (h : Action.Mild action) :
    Action.Mild (Action.rewording (.cannot attempt place) action) :=
  h.rewording fun _ hFault => hFault

theorem mild_mkdir : mkdir.Mild := by
  apply mild_plain
  intro arguments
  refine .bind (.forM (fun path => mild_attempt _ path ?_) _) fun _ => .pure _
  split
  · exact .bind (.changePartly fun v now => Volume.mild_enter now path _ _ v) fun _ => .pure _
  · exact .bind (.change fun v now => v.mild_create now path _) fun _ => .pure _

theorem mild_touch : touch.Mild := by
  apply mild_plain
  intro arguments
  refine .bind (.forM (fun path => ?_) _) fun _ => .pure _
  exact .bind (mild_attempt _ path (.changePartly fun v now => v.mild_touchPath now path)) fun _ => .pure _

theorem mild_removePath (recursive force : Bool) (path : Text) :
    Action.Mild (removePath recursive force path) := by
  intro session
  have hRemoval : Action.Mild (Action.change fun v now =>
      (v.remove now path recursive).map fun v => ((), v)) :=
    .change fun v now => (v.mild_remove now path recursive).map _
  have hFirst := hRemoval session
  rw [removePath, Action.run_bind_ok (Action.run_observe _ session)]
  rcases hRun : (Action.change fun v now =>
    (v.remove now path recursive).map fun v => ((), v)).run.run session with ⟨fault | _, later⟩
  · rw [hRun] at hFirst
    dsimp only
    split
    · exact Mild.ok ()
    · exact Mild.error (hFirst fault rfl)
  · exact Mild.ok ()

theorem mild_rm : rm.Mild := by
  apply mild_plain
  intro arguments
  dsimp only
  split
  · exact .throw_bind rfl
  · exact .bind (.forM (mild_removePath _ _) _) fun _ => .pure _

theorem mild_sourcesAndTarget (v : Volume) (command : Text) (paths : List Text) :
    TreeShell.Mild (sourcesAndTarget v command paths) := by
  unfold sourcesAndTarget
  split
  · exact .error rfl
  · exact .error rfl
  · split
    · exact .error rfl
    · exact .ok _

theorem mild_mv : mv.Mild := by
  apply mild_plain
  intro arguments
  refine .bind (.ask fun v => mild_sourcesAndTarget v _ _) fun work => ?_
  refine .bind (.forM (fun source => ?_) _) fun _ => .pure _
  exact .bind (.within (.change fun v now => v.mild_move now source _) _) fun _ => .pure _

theorem mild_copyPath (recursive : Bool) (target source : Text) :
    Action.Mild (copyPath recursive target source) := by
  refine .bind .volume fun v => ?_
  dsimp only
  split
  · exact .throw_bind rfl
  · exact .bind (.within (.change fun v now => v.mild_copy now source target recursive) _) fun _ => .pure _

theorem mild_cp : cp.Mild := by
  apply mild_plain
  intro arguments
  refine .bind (.ask fun v => mild_sourcesAndTarget v _ _) fun work => ?_
  exact .bind (.forM (mild_copyPath _ _) _) fun _ => .pure _

theorem mild_write : write.Mild := by
  have hStore (path content : Text) : Action.Mild (do
      let _ ← Action.within "write" (Action.changePartly fun v now => v.writeFile now path content false)
      return ([] : Text)) :=
    .bind (.within (.changePartly fun v now => v.mild_writeFile now path content false) _) fun _ => .pure _
  intro words stdin
  unfold write
  dsimp only
  split
  · exact hStore _ _
  · exact hStore _ _
  · exact .throw rfl

end Tree

section Search

theorem mild_grepPatterns (ignoreCase : Bool) (texts : List Text) :
    TreeShell.Mild (grepPatterns ignoreCase texts) := by
  refine .mapM ?_ texts
  intro t
  split
  · exact .ok _
  · exact .error rfl

theorem mild_grepTargets (v : Volume) (recursive : Bool) (files : List Text) :
    TreeShell.Mild (grepTargets v recursive files) := by
  rw [grepTargets]
  refine .bind (.mapM ?_ files) fun _ => .ok _
  intro path
  split
  · exact v.mild_filesBelow path
  · exact .ok _

theorem mild_grep : grep.Mild := by
  apply mild_filter
  intro arguments stdin
  dsimp only
  split
  · exact .throw_bind rfl
  all_goals
    refine .bind (.pure _) fun given => .bind (.ofExcept (mild_grepPatterns _ _)) fun patterns => ?_
    split
    · exact .throw rfl
    · exact .pure _
    · exact .bind (.ask fun v => mild_grepTargets v _ _) fun _ => .bind .volume fun _ => .pure _

theorem mild_find : find.Mild := by
  apply mild_plain
  intro arguments
  refine .bind (.ask fun v => Mild.mapM ?_ _) fun _ => .pure _
  intro start
  unfold findFrom
  split
  · exact .error rfl
  · exact .ok _

end Search

section Edit

theorem mild_script (script : Text) : TreeShell.Mild (Sed.Script.parse script) := by
  unfold Sed.Script.parse
  split
  · split
    · split
      · exact .error rfl
      · split
        · exact .ok _
        · exact .error rfl
    · exact .error rfl
  · exact .error rfl

theorem mild_edit (quiet : Bool) (scripts : List Sed.Script) (t : Text) :
    TreeShell.Mild (Sed.edit quiet scripts t) := by
  rw [Sed.edit]
  refine .bind (.forM ?_ scripts) fun _ => .ok _
  intro script
  rw [Sed.Script.check]
  split
  · exact .ok _
  · exact .error rfl

theorem mild_editFile {edit : Text → Except Fault Text} (h : ∀ t, TreeShell.Mild (edit t))
    (inPlace : Bool) (path : Text) : Action.Mild (editFile edit inPlace path) := by
  rw [editFile]
  refine .bind (mild_readFile "sed" path) fun content => .bind (.ofExcept (h content)) fun edited => ?_
  split
  · exact .bind (.changePartly fun v now => v.mild_writeFile now path _ false) fun _ => .pure _
  · exact .pure _

theorem mild_sed : sed.Mild := by
  apply mild_filter
  intro arguments stdin
  dsimp only
  split
  · exact .throw_bind rfl
  all_goals
    refine .bind (.pure _) fun given => .bind (.ofExcept (Mild.mapM mild_script _)) fun scripts => ?_
    split
    · split
      · exact .throw_bind rfl
      · split
        · exact .throw rfl
        · exact .ofExcept (mild_edit _ _ _)
    · exact .bind (.mapM (mild_editFile (mild_edit _ _) _) _) fun _ => .pure _

end Edit

section Compare

theorem mild_diffSide (stdin : Option Text) (path : Text) : Action.Mild (diffSide stdin path) := by
  unfold diffSide
  split
  · split
    · exact .pure _
    · exact .throw rfl
  · exact .bind (mild_readFile "diff" path) fun _ => .pure _

theorem mild_diff : diff.Mild := by
  apply mild_prepared
  intro arguments stdin
  exact .bind (mild_diffSide stdin _) fun _ => .bind (mild_diffSide stdin _) fun _ => .pure _

theorem mild_unifiedBody (total oldLeft newLeft : Nat) (lines : List Text) :
    TreeShell.Mild (Patch.unifiedBody total oldLeft newLeft lines) := by
  induction lines generalizing oldLeft newLeft with
  | nil =>
      unfold Patch.unifiedBody
      split
      · exact .ok _
      · exact .error rfl
  | cons line lines ih =>
      unfold Patch.unifiedBody
      split
      · exact .ok _
      · split
        · exact ih oldLeft newLeft
        · split
          · exact .bind (ih _ _) fun _ => .ok _
          · exact .bind (ih _ _) fun _ => .ok _
          · exact .bind (ih _ _) fun _ => .ok _
          · exact .error rfl

theorem mild_readContext (total : Nat) (oldHead : Nat × Nat) (rest : List Text) :
    TreeShell.Mild (Patch.readContext total oldHead rest) := by
  unfold Patch.readContext
  dsimp only
  split
  · exact .error rfl
  · exact .ok _

theorem mild_readItem (total : Nat) (line : Text) (rest : List Text) :
    TreeShell.Mild (Patch.readItem total line rest) := by
  unfold Patch.readItem
  dsimp only
  split
  · exact .map (.bind (mild_unifiedBody _ _ _ _) fun _ => .ok _) _
  · split
    · exact (mild_readContext _ _ _).map _
    · split
      · exact .ok _
      · split
        · exact .map (.ite (.ok _) (.error rfl)) _
        · exact .ok _

theorem mild_sectionsFrom (total bound : Nat) (current : Patch.Section) (lines : List Text) :
    TreeShell.Mild (Patch.sectionsFrom total bound current lines) := by
  induction bound generalizing current lines with
  | zero => exact .ok _
  | succ bound ih =>
      cases lines with
      | nil => exact .ok _
      | cons line rest =>
          refine .bind (mild_readItem total line rest) fun found => ?_
          obtain ⟨item, rest⟩ := found
          cases item with
          | hunk found => exact ih _ _
          | names source target => exact .bind (ih _ _) fun _ => .ok _
          | nothing => exact ih _ _

theorem mild_parse (t : Text) : TreeShell.Mild (Patch.parse t) :=
  .bind (mild_sectionsFrom _ _ _ _) fun _ => .check rfl (.ok _)

/-- A hunk that finds no place is a fault of the command. -/
theorem mild_applySplices (maxOffset : Int) (splices : List (Nat × Patch.Splice)) (lines : List Text) :
    TreeShell.Mild (Patch.applySplices maxOffset splices lines).2 := by
  induction splices generalizing lines with
  | nil => exact .ok lines
  | cons entry splices ih =>
      unfold Patch.applySplices
      split
      · exact .error rfl
      · dsimp only
        split
        · exact ih _
        · exact ih _

theorem mild_patchTarget (v : Volume) (strip : Int) (reverse : Bool) (part : Patch.Section) :
    TreeShell.Mild (patchTarget v strip reverse part) := by
  unfold patchTarget
  dsimp only
  split
  · exact .ok _
  · split
    · exact .ite (.ok _) (.error rfl)
    · exact .error rfl

theorem mild_patchedContent (hunks : List Patch.Hunk) (reverse : Bool) (path : Text) :
    Action.Mild (patchedContent hunks reverse path) := by
  refine .bind .volume fun v => ?_
  have hApplied (content : Text) : Action.Mild (Action.ofExcept
      (Patch.apply (Text.lines content) hunks reverse Patch.defaultMaxOffset).2) :=
    .ofExcept (mild_applySplices _ _ _)
  dsimp only
  split
  · exact .bind (.pure _) fun _ => .bind (.forM .warn _) fun _ => .bind (hApplied _) fun _ => .pure _
  · exact .bind (mild_readFile _ _) fun _ =>
      .bind (.forM .warn _) fun _ => .bind (hApplied _) fun _ => .pure _

theorem mild_patchFile (output : List Text) (reverse : Bool) (work : Text × List Patch.Hunk) :
    Action.Mild (patchFile output reverse work) :=
  .bind (mild_patchedContent _ _ _) fun _ =>
    .bind (.within (.changePartly fun v now => v.mild_writeFile now _ _ _) _) fun _ => .pure _

/-- Also a text that is no patch is a fault of the command and not of the line. -/
theorem mild_patch : patch.Mild := by
  apply mild_filter
  intro arguments stdin
  have hText : Action.Mild (patchText arguments stdin) := by
    unfold patchText
    split
    · exact mild_readFile _ _
    · exact .pure _
    · exact .throw rfl
  refine .bind hText fun t => .bind (.ofExcept (mild_parse t)) fun sections => ?_
  dsimp only
  split
  · refine .bind (.pure _) fun work => ?_
    split
    · exact .throw_bind rfl
    · exact .bind (.mapM (mild_patchFile _ _) _) fun _ => .pure _
  · refine .bind (.ask fun v => Mild.mapM (fun part => ?_) _) fun work => ?_
    · exact .bind (mild_patchTarget v _ _ part) fun _ => .ok _
    · split
      · exact .throw_bind rfl
      · exact .bind (.mapM (mild_patchFile _ _) _) fun _ => .pure _

end Compare

section Exchange

theorem mild_import : importCommand.Mild := by
  apply mild_plain
  intro arguments
  exact .bind (.failed _ _) fun _ => .pure _

theorem mild_export : exportCommand.Mild := by
  apply mild_plain
  intro arguments
  refine .bind .volume fun v => ?_
  split
  · exact .throw rfl
  · exact .bind (.failed _ _) fun _ => .pure _

end Exchange

section Name

theorem mild_echo : echo.Mild := fun _ _ => .pure _

theorem mild_succeed : succeed.Mild := fun _ _ => .pure _

theorem mild_fail : fail.Mild := fun _ _ => .throw rfl

theorem mild_basename : basename.Mild := mild_plain _ fun _ => .pure _

theorem mild_dirname : dirname.Mild := mild_plain _ fun _ => .pure _

end Name

/-- No command that a shell has from the beginning rejects a line. -/
theorem mild_registry : registry.Mild := by
  have hNone : Registry.Mild [] := by simp [Registry.Mild]
  apply hNone.registerAll
  simp only [commands, List.forall_mem_cons]
  exact ⟨mild_pwd, mild_cd, mild_ls, mild_mkdir, mild_touch, mild_rm, mild_mv, mild_cp, mild_write,
    mild_cat, mild_echo, mild_succeed, mild_fail, mild_grep, mild_sed, mild_head, mild_tail, mild_wc,
    mild_sort, mild_uniq, mild_tee, mild_basename, mild_dirname, mild_find, mild_diff, mild_patch,
    mild_import, mild_export, by simp⟩

end Builtin

end TreeShell
