import TreeShell.Proofs.Line.Operator

/-! Words in their segments. The joints among the words of a line are dropped and every other word is in
the segment where it was written; a segment ends at the joint that it is named after, the last one
wherever the line ends. What is left of a segment without its redirections has no operator in it. -/
namespace TreeShell

namespace Segment

def isPart (w : Word) : Bool := w.joint?.isNone

/-- How words make up segments: joints that no command stands before are dropped, and so are all joints
behind the last command. -/
inductive Groups : List Word → List Segment → Prop where
  | nothing {joints : List Word} (idle : ∀ w ∈ joints, isPart w = false) : Groups joints []
  | last {lead command trail : List Word} (idle : ∀ w ∈ lead, isPart w = false)
      (parts : ∀ w ∈ command, isPart w = true) (full : command ≠ [])
      (idleAfter : ∀ w ∈ trail, isPart w = false) :
      Groups (lead ++ command ++ trail) [⟨.close, command, none⟩]
  | cons {lead command rest : List Word} {w : Word} {joint : Joint} {later : List Segment}
      (idle : ∀ w ∈ lead, isPart w = false) (parts : ∀ w ∈ command, isPart w = true)
      (full : command ≠ []) (ends : w.joint? = some joint) (others : Groups rest later)
      (more : later ≠ []) :
      Groups (lead ++ command ++ w :: rest) (⟨joint, command, none⟩ :: later)

theorem isPart_of_joint? {w : Word} {joint : Joint} (h : w.joint? = some joint) : isPart w = false := by
  rw [isPart, h]
  rfl

theorem closeLast_cons {first : Segment} {segments : List Segment} (h : segments ≠ []) :
    closeLast (first :: segments) = first :: closeLast segments := by
  obtain ⟨second, rest, rfl⟩ := List.exists_cons_of_ne_nil h
  rfl

theorem closeLast_ne_nil {segments : List Segment} (h : segments ≠ []) : closeLast segments ≠ [] := by
  obtain ⟨first, rest, rfl⟩ := List.exists_cons_of_ne_nil h
  cases rest <;> exact List.cons_ne_nil _ _

/-- Grouping, with the words of the segment at hand and the joints dropped in front of them. -/
theorem groups_groupFrom {lead current : List Word} (hLead : ∀ w ∈ lead, isPart w = false)
    (hCurrent : ∀ w ∈ current, isPart w = true) (words : List Word) :
    Groups (lead ++ current.reverse ++ words) (closeLast (groupFrom current words)) := by
  have hParts : ∀ {current : List Word}, (∀ w ∈ current, isPart w = true) →
      ∀ w ∈ current.reverse, isPart w = true := fun h w hw => h w (List.mem_reverse.mp hw)
  induction words generalizing lead current with
  | nil =>
      rw [groupFrom]
      cases current with
      | nil => exact .nothing (by simpa using hLead)
      | cons w current => exact .last hLead (hParts hCurrent) (by simp) (by simp)
  | cons w rest ih =>
      rw [groupFrom]
      split
      · rename_i joint hJoint
        have hIdle := isPart_of_joint? hJoint
        cases current with
        | nil =>
            have hMore : ∀ x ∈ lead ++ [w], isPart x = false := by
              simpa [or_imp, forall_and] using ⟨hLead, hIdle⟩
            have hRest := ih hMore hCurrent
            rwa [List.reverse_nil, List.append_nil, List.append_assoc, List.singleton_append,
              ← List.append_nil lead] at hRest
        | cons first current =>
            have hRest : Groups rest (closeLast (groupFrom [] rest)) := @ih [] [] (by simp) (by simp)
            rw [List.isEmpty_cons, if_neg Bool.false_ne_true]
            by_cases hNone : groupFrom [] rest = []
            · rw [hNone] at hRest ⊢
              cases hRest with
              | nothing hJoints =>
                  exact .last hLead (hParts hCurrent) (by simp) (List.forall_mem_cons.mpr ⟨hIdle, hJoints⟩)
            · rw [closeLast_cons hNone]
              exact .cons hLead (hParts hCurrent) (by simp) hJoint hRest (closeLast_ne_nil hNone)
      · rename_i hJoint
        have hPart : isPart w = true := by rw [isPart, hJoint, Option.isNone_none]
        have hRest := ih hLead (List.forall_mem_cons.mpr ⟨hPart, hCurrent⟩)
        rwa [List.reverse_cons, ← List.append_assoc, List.append_assoc, List.singleton_append] at hRest

theorem groups_group (words : List Word) : Groups words (group words) :=
  @groups_groupFrom [] [] (by simp) (by simp) words

/-- What the segments of a list of words are: every word but the joints is in one of them, in order; the
last one closes, and any other is named after the joint that stands behind its last word. -/
structure Faithful (words : List Word) (segments : List Segment) : Prop where
  command_ne_nil : ∀ segment ∈ segments, segment.command ≠ []
  body_eq_none : ∀ segment ∈ segments, segment.body = none
  flatMap_command : segments.flatMap Segment.command = words.filter isPart
  last : ∀ front segment, segments = front ++ [segment] → segment.joint = .close
  followed : ∀ front segment back, segments = front ++ segment :: back → back ≠ [] →
    segment.joint ≠ .close ∧ ∃ before w after, words = before ++ segment.command ++ w :: after ∧
      w.joint? = some segment.joint ∧ before.filter isPart = front.flatMap Segment.command ∧
      after.filter isPart = back.flatMap Segment.command

theorem filter_idle {joints : List Word} (h : ∀ w ∈ joints, isPart w = false) :
    joints.filter isPart = [] := by
  rw [List.filter_eq_nil_iff]
  exact fun w hw => Bool.eq_false_iff.mp (h w hw)

theorem joint?_ne_close (w : Word) : w.joint? ≠ some .close := by
  intro hClose
  obtain ⟨op, _, hJoint⟩ := Option.bind_eq_some_iff.mp hClose
  cases op <;> cases hJoint

/-- A grouping keeps the words apart from the joints, in order, and drops nothing but joints. -/
theorem Groups.faithful {words : List Word} {segments : List Segment} (h : Groups words segments) :
    Faithful words segments := by
  induction h with
  | nothing idle =>
      exact ⟨nofun, nofun, (filter_idle idle).symm, by simp, by simp⟩
  | @last lead command trail idle parts full idleAfter =>
      refine ⟨by simpa using full, by simp, ?_, fun front segment hLast => ?_,
        fun front segment back hSplit hMore => ?_⟩
      · simp [filter_idle idle, filter_idle idleAfter, List.filter_eq_self.mpr parts]
      · have hMem : segment ∈ front ++ [segment] := List.mem_append_right front (List.mem_singleton_self _)
        rw [← hLast, List.mem_singleton] at hMem
        rw [hMem]
      · have hLength := congrArg List.length hSplit
        rw [List.length_append, List.length_singleton, List.length_cons] at hLength
        exact absurd (List.length_eq_zero_iff.mp (by omega)) hMore
  | @cons lead command rest w joint later idle parts full ends others more ih =>
      have hEnds := isPart_of_joint? ends
      have hCommand := List.filter_eq_self.mpr parts
      refine ⟨List.forall_mem_cons.mpr ⟨full, ih.command_ne_nil⟩,
        List.forall_mem_cons.mpr ⟨rfl, ih.body_eq_none⟩, ?_, fun front segment hLast => ?_,
        fun front segment back hSplit hMore => ?_⟩
      · simp [filter_idle idle, hCommand, hEnds, ih.flatMap_command]
      · cases front with
        | nil => exact absurd (List.cons.inj hLast).2 more
        | cons _ front => exact ih.last front segment (List.cons.inj hLast).2
      · cases front with
        | nil =>
            obtain ⟨rfl, rfl⟩ := List.cons.inj hSplit
            refine ⟨?_, lead, w, rest, rfl, ends, filter_idle idle, ih.flatMap_command.symm⟩
            rintro rfl
            exact joint?_ne_close w ends
        | cons _ front =>
            obtain ⟨rfl, hLater⟩ := List.cons.inj hSplit
            obtain ⟨hOpen, before, next, after, rfl, hNext, hBefore, hAfter⟩ :=
              ih.followed front segment back hLater hMore
            refine ⟨hOpen, lead ++ command ++ w :: before, next, after, by simp, hNext, ?_, hAfter⟩
            simp [filter_idle idle, hCommand, hEnds, hBefore]

end Segment

/-- A command is made of words among which its redirections stood. -/
theorem command_sublist {words command : List Word} {redirections : List Redirection}
    (h : takeRedirections words = .ok (command, redirections)) : command.Sublist words := by
  fun_induction takeRedirections words generalizing command redirections with
  | case1 =>
      cases h
      exact List.Sublist.refl _
  | case2 w rest hMerge ih =>
      obtain ⟨⟨found, others⟩, hRest, hSame⟩ := map_eq_ok.mp h
      cases hSame
      exact (ih hRest).cons w
  | case3 w how hRedirect => cases h
  | case4 w how hRedirect target rest ih =>
      obtain ⟨⟨found, others⟩, hRest, hSame⟩ := map_eq_ok.mp h
      cases hSame
      exact ((ih hRest).cons target).cons w
  | case5 w rest hMerge hRedirect ih =>
      obtain ⟨⟨found, others⟩, hRest, hSame⟩ := map_eq_ok.mp h
      cases hSame
      exact (ih hRest).cons_cons w

/-- A word that is neither a joint nor a redirection stands for no operator. -/
theorem Word.isOperator_eq_false {w : Word} (hPart : Segment.isPart w = true)
    (hRedirects : w.redirects = false) : w.isOperator = false := by
  rw [Segment.isPart, Word.joint?] at hPart
  rw [Word.redirects] at hRedirects
  rw [Word.isOperator]
  cases hOperator : w.operator? with
  | none => rfl
  | some op =>
      rw [hOperator] at hPart hRedirects
      cases op with
      | redirect how => cases hRedirects
      | mergeErrors => cases hRedirects
      | _ => cases hPart

namespace Segment

/-- No word is lost when words are divided into segments, and in no command of a line an operator is
left. -/
theorem faithful_group :
    (∀ words, Faithful words (group words)) ∧
    ∀ line segments, ofLine line = .ok segments → ∀ segment ∈ segments, ∀ command redirections,
      takeRedirections segment.command = .ok (command, redirections) →
        ∀ w ∈ command, w.isOperator = false := by
  have hFaithful : ∀ words, Faithful words (group words) := fun words => (groups_group words).faithful
  refine ⟨hFaithful, fun line segments hLine segment hSegment command redirections hTaken w hw => ?_⟩
  obtain ⟨words, _, rfl⟩ := map_eq_ok.mp hLine
  have hListed : w ∈ (group words).flatMap Segment.command :=
    List.mem_flatMap.mpr ⟨segment, hSegment, (command_sublist hTaken).subset hw⟩
  rw [(hFaithful words).flatMap_command] at hListed
  exact Word.isOperator_eq_false (List.mem_filter.mp hListed).2 (redirects_of_takeRedirections hTaken w hw)

/-- Joints that follow each other, joints at both ends of a line, and a joint between quotes. -/
example : (ofLine "; a > '|' ;; b '&&' | c ;").toOption.map (·.map fun s => (s.joint, s.command)) =
    some [(.sequence, [.plain "a", .plain ">", ⟨"|", true⟩]), (.pipe, [.plain "b", ⟨"&&", true⟩]),
      (.close, [.plain "c"])] := by decide

end Segment

end TreeShell
