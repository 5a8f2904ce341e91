import TreeShell.Line.Redirection
import TreeShell.Line.Segment
import TreeShell.Proofs.Line.Region

/-! Words and operators kept apart. A word that was read stands for no operator: if a part
of it was quoted it is marked, and otherwise its letters were tried as an operator where the
word began. So the operators among the words of a line are the ones that were written. -/
namespace TreeShell

/-- Where no operator can be read ahead, no beginning of the text spells one. -/
theorem Operator.ofText?_eq_none {front back : Text} (h : read? (front ++ back) = none) :
    ofText? front = none := by
  apply List.find?_eq_none.mpr
  intro op hMem hSame
  have hPart : op.text.isPrefixOf (front ++ back) = true := by
    rw [eq_of_beq hSame]
    exact List.isPrefixOf_iff_prefix.mpr (List.prefix_append front back)
  exact List.find?_eq_none.mp h op hMem hPart

@[simp] theorem Operator.ofText?_text (op : Operator) : ofText? op.text = some op := by
  cases op with
  | redirect how => cases how <;> rfl
  | _ => rfl

def Word.redirects (w : Word) : Bool :=
  match w.operator? with
  | some .mergeErrors | some (.redirect _) => true
  | _ => false

/-- A first word that is no redirection goes to the command. -/
theorem takeRedirections_cons {w : Word} {words : List Word} (h : w.redirects = false) :
    takeRedirections (w :: words) =
      (takeRedirections words).map fun (command, found) => (w :: command, found) := by
  rw [takeRedirections]
  split
  · rename_i hMerge
    simp [Word.redirects, hMerge] at h
  · rename_i how hRedirect
    simp [Word.redirects, hRedirect] at h
  · rfl

/-- Words in front that are no redirection operators belong to the command, whatever follows. -/
theorem takeRedirections_append {front back : List Word} (h : ∀ w ∈ front, w.redirects = false) :
    takeRedirections (front ++ back) =
      (takeRedirections back).map fun (command, found) => (front ++ command, found) := by
  induction front with
  | nil =>
      rw [List.nil_append]
      cases takeRedirections back <;> rfl
  | cons w front ih =>
      rw [List.cons_append, takeRedirections_cons (h w List.mem_cons_self),
        ih fun other hOther => h other (List.mem_cons_of_mem _ hOther)]
      cases takeRedirections back <;> rfl

/-- Redirections that are written out again are read back. -/
theorem takeRedirections_toWords (redirections : List Redirection) (back : List Word) :
    takeRedirections (redirections.flatMap Redirection.toWords ++ back) =
      (takeRedirections back).map fun (command, found) => (command, redirections ++ found) := by
  induction redirections with
  | nil =>
      rw [List.flatMap_nil, List.nil_append]
      cases takeRedirections back <;> rfl
  | cons redirection redirections ih =>
      rw [List.flatMap_cons, List.append_assoc]
      obtain ⟨how, target⟩ | _ := redirection
      · have hHow : (Word.plain how.text).operator? = some (.redirect how) :=
          Operator.ofText?_text (.redirect how)
        rw [Redirection.toWords, List.cons_append, List.cons_append, List.nil_append,
          takeRedirections, hHow]
        dsimp only
        rw [ih]
        cases takeRedirections back <;> rfl
      · change (takeRedirections (redirections.flatMap Redirection.toWords ++ back)).map _ = _
        rw [ih]
        cases takeRedirections back <;> rfl

/-- No redirection is left among the words of a command. -/
theorem redirects_of_takeRedirections {words command : List Word} {redirections : List Redirection}
    (h : takeRedirections words = .ok (command, redirections)) : ∀ w ∈ command, w.redirects = false := by
  fun_induction takeRedirections words generalizing command redirections with
  | case1 =>
      cases h
      exact nofun
  | case2 w rest hMerge ih =>
      obtain ⟨⟨found, others⟩, hRest, hSame⟩ := map_eq_ok.mp h
      cases hSame
      exact ih hRest
  | case3 w how hRedirect => cases h
  | case4 w how hRedirect target rest ih =>
      obtain ⟨⟨found, others⟩, hRest, hSame⟩ := map_eq_ok.mp h
      cases hSame
      exact ih hRest
  | case5 w rest hMerge hRedirect ih =>
      obtain ⟨⟨found, others⟩, hRest, hSame⟩ := map_eq_ok.mp h
      cases hSame
      intro other hMem
      rcases List.mem_cons.mp hMem with rfl | hMem
      · rw [Word.redirects]
        split
        · rename_i hOperator
          exact (hMerge hOperator).elim
        · rename_i how hOperator
          exact (hRedirect how hOperator).elim
        · rfl
      · exact ih hRest other hMem

namespace Lexeme

@[simp] theorem operator?_toWord_operator (op : Operator) (position : Nat) :
    (Lexeme.operator op position).toWord.operator? = some op := by
  simp [toWord, Word.plain, Word.operator?]

/-- The word at hand was quoted, or no operator begins where it begins. -/
def Draft.Plain (w : Draft) (t : Text) : Prop :=
  w.quoted = true ∨ Operator.read? (w.letters.reverse ++ t) = none

theorem Draft.Plain.push {w : Draft} {c : CodePoint} {rest : Text} (h : w.Plain (c :: rest)) :
    (w.push c).Plain rest := by
  refine h.imp_right fun hRead => ?_
  rwa [Draft.push, List.reverse_cons, List.append_assoc]

/-- The word at hand is plain, and quoted where quotes or a backslash are around it. -/
def Mode.Plain (mode : Mode) (t : Text) : Prop :=
  match mode with
  | .between | .inOperator _ => True
  | .inWord w | .inCommand w none _ => w.Plain t
  | .escaped w | .inSingle w _ | .inDouble w _ | .escapedInDouble w _ | .inCommand w (some _) _ =>
    w.quoted = true

/-- No word among the lexemes stands for an operator. -/
def WordsPlain (lexemes : List Lexeme) : Prop :=
  ∀ w position quoted, .word w position quoted ∈ lexemes → w.operator? = none

theorem wordsPlain_nil : WordsPlain [] := nofun

theorem wordsPlain_append {front back : List Lexeme} (hFront : WordsPlain front)
    (hBack : WordsPlain back) : WordsPlain (front ++ back) := by
  intro w position quoted hMem
  rcases List.mem_append.mp hMem with hMem | hMem
  · exact hFront w position quoted hMem
  · exact hBack w position quoted hMem

theorem WordsPlain.mono {lexemes others : List Lexeme} (h : WordsPlain others)
    (hSubset : lexemes ⊆ others) : WordsPlain lexemes :=
  fun w position quoted hMem => h w position quoted (hSubset hMem)

theorem Draft.Plain.finish {w : Draft} {t : Text} (h : w.Plain t) : WordsPlain [w.finish] := by
  intro word position quoted hMem
  cases List.mem_singleton.mp hMem
  rw [Word.operator?]
  split
  · rfl
  · rename_i hMark
    rcases h with hQuoted | hRead
    · simp only [hQuoted, Bool.true_and, Bool.or_eq_true, not_or, Option.not_isSome_iff_eq_none] at hMark
      exact hMark.1
    · exact Operator.ofText?_eq_none hRead

/-- A word that goes on has read one character more. -/
theorem plain_stepWord {w : Draft} {position : Nat} {c : CodePoint} {rest : Text}
    (h : w.Plain (c :: rest)) : (stepWord w position c rest).Plain rest := by
  rw [stepWord]
  split
  · rfl
  · split
    · rfl
    · split
      · rfl
      · split <;> exact h.push

/-- A word that begins between two words has read what was consumed, and no more. -/
theorem plain_stepBetween (position : Nat) (c : CodePoint) (rest : Text) :
    (stepBetween position c rest).2.Plain rest ∧ WordsPlain (stepBetween position c rest).1 := by
  have hOperator (op : Operator) : WordsPlain [.operator op position] := by
    intro w place quoted hMem
    cases List.mem_singleton.mp hMem
  rw [stepBetween]
  split
  · exact ⟨trivial, wordsPlain_nil⟩
  · split
    · exact ⟨trivial, hOperator .sequence⟩
    · split
      · refine ⟨?_, hOperator _⟩
        dsimp only
        split <;> trivial
      · rename_i hRead
        exact ⟨plain_stepWord (Or.inr hRead), wordsPlain_nil⟩

/-- One character keeps the word at hand plain, and completes plain words only. -/
theorem plain_step {mode : Mode} (position : Nat) {c : CodePoint} {rest : Text}
    (h : mode.Plain (c :: rest)) :
    (step mode position c rest).2.Plain rest ∧ WordsPlain (step mode position c rest).1 := by
  cases mode with
  | between => exact plain_stepBetween position c rest
  | inWord w =>
      rw [step]
      split
      · have hBetween := plain_stepBetween position c rest
        exact ⟨hBetween.1, wordsPlain_append (Draft.Plain.finish h) hBetween.2⟩
      · exact ⟨plain_stepWord h, wordsPlain_nil⟩
  | inOperator left =>
      refine ⟨?_, wordsPlain_nil⟩
      rw [step]
      dsimp only
      split <;> trivial
  | escaped w => exact ⟨Or.inl h, wordsPlain_nil⟩
  | inSingle w opened =>
      refine ⟨?_, wordsPlain_nil⟩
      rw [step]
      dsimp only
      split
      · exact Or.inl h
      · exact h
  | inDouble w opened =>
      refine ⟨?_, wordsPlain_nil⟩
      rw [step]
      dsimp only
      split
      · exact Or.inl h
      · repeat' split
        all_goals exact h
  | escapedInDouble w opened => exact ⟨h, wordsPlain_nil⟩
  | inCommand w opened depth =>
      refine ⟨?_, wordsPlain_nil⟩
      rw [step]
      dsimp only
      generalize (if c == '(' then depth + 1 else if c == ')' then depth - 1 else depth) = depth
      cases opened with
      | none => split <;> exact Draft.Plain.push h
      | some opened => split <;> exact h

/-- A word that the end of the line completes is plain if the draft was. -/
theorem wordsPlain_finish {mode : Mode} {lexemes : List Lexeme} (hMode : mode.Plain [])
    (h : finish mode = .ok lexemes) : WordsPlain lexemes := by
  cases mode with
  | between => cases h; exact wordsPlain_nil
  | inOperator left => cases h; exact wordsPlain_nil
  | inWord w => cases h; exact Draft.Plain.finish hMode
  | escaped w => cases h; exact Draft.Plain.finish (t := []) (Or.inl hMode)
  | inSingle w opened => cases h
  | inDouble w opened => cases h
  | escapedInDouble w opened => cases h
  | inCommand w opened depth =>
      cases opened with
      | none => cases h; exact Draft.Plain.finish hMode
      | some opened => cases h

/-- No word that is read stands for an operator. -/
theorem wordsPlain_readFrom {mode : Mode} {position : Nat} {t : Text} {lexemes : List Lexeme}
    (hMode : mode.Plain t) (h : readFrom mode position t = .ok lexemes) : WordsPlain lexemes := by
  induction t generalizing mode position lexemes with
  | nil => exact wordsPlain_finish hMode h
  | cons c rest ih =>
      obtain ⟨later, hLater, rfl⟩ := readFrom_cons_eq_ok.mp h
      have hStep := plain_step position hMode
      exact wordsPlain_append hStep.2 (ih hStep.1 hLater)

/-- The lexemes of a command that are neither redirections nor their targets. -/
def standing : List Lexeme → List Lexeme
  | [] => []
  | .operator .mergeErrors _ :: rest => standing rest
  | .operator (.redirect _) _ :: _ :: rest => standing rest
  | lexeme :: rest => lexeme :: standing rest

/-- What is left of the lexemes keeps their order. -/
theorem standing_sublist (lexemes : List Lexeme) : (standing lexemes).Sublist lexemes := by
  fun_induction standing lexemes with
  | case1 => exact List.Sublist.refl _
  | case2 position rest ih => exact ih.cons _
  | case3 how position target rest ih => exact (ih.cons _).cons _
  | case4 lexeme rest _ _ ih => exact ih.cons_cons _

/-- The words that are left when the redirections are taken out are the standing ones. -/
theorem takeRedirections_toWord {lexemes : List Lexeme} {command : List Word}
    {redirections : List Redirection} (hWords : WordsPlain lexemes)
    (h : takeRedirections (lexemes.map toWord) = .ok (command, redirections)) :
    command = (standing lexemes).map toWord := by
  induction lexemes using standing.induct generalizing command redirections with
  | case1 => cases h; rfl
  | case2 position rest ih =>
      rw [List.map_cons, takeRedirections, operator?_toWord_operator] at h
      obtain ⟨⟨found, others⟩, hRest, hSame⟩ := map_eq_ok.mp h
      cases hSame
      exact ih (hWords.mono (List.subset_cons_self _ _)) hRest
  | case3 how position target rest ih =>
      rw [List.map_cons, List.map_cons, takeRedirections, operator?_toWord_operator] at h
      obtain ⟨⟨found, others⟩, hRest, hSame⟩ := map_eq_ok.mp h
      cases hSame
      exact ih (hWords.mono (by simp)) hRest
  | case4 lexeme rest hMerge hRedirect ih =>
      have hKept : lexeme.toWord.redirects = false := by
        cases lexeme with
        | word w position quoted => simp [Word.redirects, toWord, hWords w position quoted (by simp)]
        | operator op position =>
            cases op with
            | mergeErrors => exact (hMerge position rfl).elim
            | redirect how =>
                cases rest with
                | nil =>
                    rw [List.map_cons, takeRedirections, operator?_toWord_operator] at h
                    cases h
                | cons target rest => exact (hRedirect how position target rest rfl rfl).elim
            | _ => rfl
      rw [List.map_cons, takeRedirections_cons hKept] at h
      obtain ⟨⟨found, others⟩, hRest, hSame⟩ := map_eq_ok.mp h
      cases hSame
      rw [standing, ih (hWords.mono (List.subset_cons_self _ _)) hRest, List.map_cons]
      · exact hMerge
      · exact hRedirect

@[simp] theorem joint?_toWord_operator (op : Operator) (position : Nat) :
    (Lexeme.operator op position).toWord.joint? = op.joint? := by
  rw [Word.joint?, operator?_toWord_operator]
  rfl

/-- A joint among the words left is an operator that was written. -/
theorem exists_operator_of_joint? {lexemes : List Lexeme} {w : Word} {joint : Joint}
    (hWords : WordsPlain lexemes) (hMem : w ∈ (standing lexemes).map toWord)
    (hJoint : w.joint? = some joint) :
    ∃ op position, .operator op position ∈ standing lexemes ∧ op.joint? = some joint := by
  obtain ⟨lexeme, hStanding, rfl⟩ := List.mem_map.mp hMem
  cases lexeme with
  | word w position quoted =>
      have hPlain := hWords w position quoted ((standing_sublist lexemes).subset hStanding)
      simp [toWord, Word.joint?, hPlain] at hJoint
  | operator op position =>
      rw [joint?_toWord_operator] at hJoint
      exact ⟨op, position, hStanding, hJoint⟩

/-- If no lexeme is a sequence, then no word stands for one, since plain words never spell an
operator. -/
theorem joint?_ne_sequence {lexemes : List Lexeme} (hWords : WordsPlain lexemes)
    (hNo : NoSequence lexemes) : ∀ w ∈ (standing lexemes).map toWord, w.joint? ≠ some .sequence := by
  intro w hMem hJoint
  obtain ⟨op, position, hStanding, hOp⟩ := exists_operator_of_joint? hWords hMem hJoint
  cases op with
  | sequence => exact hNo position ((standing_sublist lexemes).subset hStanding)
  | _ => cases hOp

/-- Where no separator is written, the joints among the words left are the pipes, `&&` and
`||` that are no targets of redirections. -/
theorem exists_joint_iff {lexemes : List Lexeme} (hWords : WordsPlain lexemes)
    (hNo : NoSequence lexemes) :
    (∃ w ∈ (standing lexemes).map toWord, w.joint?.isSome = true) ↔
      ∃ op ∈ [Operator.pipe, .and, .or], ∃ position, .operator op position ∈ standing lexemes := by
  constructor
  · rintro ⟨w, hMem, hSome⟩
    obtain ⟨joint, hJoint⟩ := Option.isSome_iff_exists.mp hSome
    obtain ⟨op, position, hStanding, hOp⟩ := exists_operator_of_joint? hWords hMem hJoint
    refine ⟨op, ?_, position, hStanding⟩
    cases op with
    | sequence => exact (hNo position ((standing_sublist lexemes).subset hStanding)).elim
    | redirect how => cases hOp
    | mergeErrors => cases hOp
    | _ => simp
  · rintro ⟨op, hOp, position, hStanding⟩
    have hJoint : ∀ op ∈ [Operator.pipe, .and, .or], op.joint?.isSome = true := by decide
    refine ⟨_, List.mem_map.mpr ⟨_, hStanding, rfl⟩, ?_⟩
    rw [joint?_toWord_operator]
    exact hJoint op hOp

end Lexeme

end TreeShell
