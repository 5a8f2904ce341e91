import Mathlib.Algebra.Ring.Parity
import Mathlib.Data.List.Chain
import Mathlib.Data.List.DropRight
import TreeShell.Proofs.Line.Operator

/-! The grammar of redirections. A list of words that can be read is a row of parts, each of them a word
of the command or a redirection, and a redirector takes the word behind it whatever that word looks like.
A list that cannot be read is such a row with one redirector more at its end. So it depends on the end of
a list alone whether it can be read: a run of redirectors is read in pairs. -/
namespace TreeShell

/-- Whether a word is an operator that takes the word behind it for its target. -/
def Word.seeksTarget (w : Word) : Bool :=
  match w.operator? with
  | some (.redirect _) => true
  | _ => false

namespace Redirection

/-- A part of a list of words: a word of the command, or a redirection as it is written. -/
inductive Part where
  | word (w : Word) (plain : w.redirects = false)
  | mergeErrors
  | redirect (how : Redirector) (target : Word)

namespace Part

/-- The words that a part is written with. -/
def words : Part → List Word
  | word w _ => [w]
  | mergeErrors => [.plain Operator.mergeErrors.text]
  | redirect how target => [.plain how.text, target]

/-- The word that a part gives to the command. -/
def word? : Part → Option Word
  | word w _ => some w
  | mergeErrors | redirect .. => none

def redirection? : Part → Option Redirection
  | word .. => none
  | mergeErrors => some .mergeErrors
  | redirect how target => some (.to how target.text)

end Part

/-- A row of parts as a list of words. -/
def spelled (parts : List Part) : List Word := parts.flatMap Part.words

@[simp] theorem spelled_nil : spelled [] = [] := rfl

@[simp] theorem spelled_cons (part : Part) (parts : List Part) :
    spelled (part :: parts) = part.words ++ spelled parts := rfl

@[simp] theorem spelled_append (front back : List Part) :
    spelled (front ++ back) = spelled front ++ spelled back :=
  List.flatMap_append

theorem operator?_plain_text (op : Operator) : (Word.plain op.text).operator? = some op :=
  Operator.ofText?_text op

theorem operator?_plain_redirector (how : Redirector) :
    (Word.plain how.text).operator? = some (.redirect how) :=
  operator?_plain_text (.redirect how)

theorem seeksTarget_plain (how : Redirector) : (Word.plain how.text).seeksTarget = true := by
  rw [Word.seeksTarget, operator?_plain_redirector]

theorem seeksTarget_of_not_redirects {w : Word} (h : w.redirects = false) : w.seeksTarget = false := by
  unfold Word.redirects at h
  unfold Word.seeksTarget
  split at h
  · cases h
  · cases h
  · rename_i hOther
    split
    · rename_i how hHow
      exact absurd hHow (hOther how)
    · rfl

theorem eq_text_of_ofText? {t : Text} {op : Operator} (h : Operator.ofText? t = some op) :
    t = op.text := by
  have hFound : Operator.every.find? (fun op => op.text == t) = some op := h
  have hSame := List.find?_some hFound
  exact (eq_of_beq hSame).symm

/-- An operator that no mark makes literal is written plainly. -/
theorem eq_plain_of_operator? {w : Word} {op : Operator} (h : w.operator? = some op) :
    w = .plain op.text := by
  obtain ⟨text, literal⟩ := w
  unfold Word.operator? at h
  split at h
  · cases h
  · rename_i hPlain
    have hText : text = op.text := eq_text_of_ofText? h
    simpa [Word.plain, hText] using hPlain

/-- One part in front of words is read by itself. -/
theorem takeRedirections_part (part : Part) (back : List Word) :
    takeRedirections (part.words ++ back) = (takeRedirections back).map fun (command, found) =>
      (part.word?.toList ++ command, part.redirection?.toList ++ found) := by
  cases part with
  | word w plain => exact takeRedirections_cons plain
  | mergeErrors => rfl
  | redirect how target =>
      change takeRedirections (.plain how.text :: target :: back) = _
      rw [takeRedirections, operator?_plain_redirector]
      rfl

/-- A row of parts in front of words is read part by part. -/
theorem takeRedirections_spelled (parts : List Part) (back : List Word) :
    takeRedirections (spelled parts ++ back) = (takeRedirections back).map fun (command, found) =>
      (parts.filterMap Part.word? ++ command, parts.filterMap Part.redirection? ++ found) := by
  induction parts with
  | nil =>
      rw [spelled_nil, List.nil_append]
      cases takeRedirections back <;> rfl
  | cons part parts ih =>
      rw [spelled_cons, List.append_assoc, takeRedirections_part, ih]
      cases takeRedirections back with
      | error fault => rfl
      | ok read => cases part <;> rfl

theorem takeRedirections_of_spelled (parts : List Part) : takeRedirections (spelled parts) =
    .ok (parts.filterMap Part.word?, parts.filterMap Part.redirection?) := by
  have hRead := takeRedirections_spelled parts []
  rw [takeRedirections, List.append_nil] at hRead
  simpa [Except.map] using hRead

/-- An operator at the very end lacks its target. -/
theorem takeRedirections_of_unfinished (parts : List Part) (how : Redirector) :
    takeRedirections (spelled parts ++ [.plain how.text]) = .error (.missingTarget how.text) := by
  have hLast : takeRedirections [.plain how.text] = .error (.missingTarget how.text) := by
    rw [takeRedirections, operator?_plain_redirector]
  rw [takeRedirections_spelled, hLast]
  rfl

/-- Words are a row of parts, or such a row and a redirector that no word follows. -/
theorem exists_spelled (words : List Word) : (∃ parts, words = spelled parts) ∨
    ∃ parts how, words = spelled parts ++ [.plain (Redirector.text how)] := by
  have hFront : ∀ (part : Part) (rest : List Word), ((∃ parts, rest = spelled parts) ∨
      ∃ parts how, rest = spelled parts ++ [.plain (Redirector.text how)]) →
      (∃ parts, part.words ++ rest = spelled parts) ∨
        ∃ parts how, part.words ++ rest = spelled parts ++ [.plain (Redirector.text how)] := by
    intro part rest h
    rcases h with ⟨parts, rfl⟩ | ⟨parts, how, rfl⟩
    · exact Or.inl ⟨part :: parts, rfl⟩
    · exact Or.inr ⟨part :: parts, how, by simp⟩
  fun_induction takeRedirections words with
  | case1 => exact Or.inl ⟨[], rfl⟩
  | case2 w rest hMerge ih =>
      rw [eq_plain_of_operator? hMerge]
      exact hFront .mergeErrors rest ih
  | case3 w how hRedirect =>
      rw [eq_plain_of_operator? hRedirect]
      exact Or.inr ⟨[], how, rfl⟩
  | case4 w how hRedirect target rest ih =>
      rw [eq_plain_of_operator? hRedirect]
      exact hFront (.redirect how target) rest ih
  | case5 w rest hMerge hRedirect ih =>
      have hPlain : w.redirects = false := by
        unfold Word.redirects
        split
        · rename_i hOperator
          exact absurd hOperator hMerge
        · rename_i how hOperator
          exact absurd hOperator (hRedirect how)
        · rfl
      exact hFront (.word w hPlain) rest ih

/-- Words are split into a command and redirections exactly if they spell a sequence of parts with
these two projections. -/
theorem takeRedirections_eq_ok_iff {words command : List Word} {found : List Redirection} :
    takeRedirections words = .ok (command, found) ↔ ∃ parts, words = spelled parts ∧
      command = parts.filterMap Part.word? ∧ found = parts.filterMap Part.redirection? := by
  constructor
  · intro h
    rcases exists_spelled words with ⟨parts, rfl⟩ | ⟨parts, how, rfl⟩
    · rw [takeRedirections_of_spelled] at h
      cases h
      exact ⟨parts, rfl, rfl, rfl⟩
    · rw [takeRedirections_of_unfinished] at h
      cases h
  · rintro ⟨parts, rfl, rfl, rfl⟩
    exact takeRedirections_of_spelled parts

/-- Splitting fails only for an operator at the very end, behind parts that are complete. -/
theorem takeRedirections_eq_error_iff {words : List Word} {fault : Fault} :
    takeRedirections words = .error fault ↔ ∃ parts how,
      words = spelled parts ++ [.plain (Redirector.text how)] ∧ fault = .missingTarget how.text := by
  constructor
  · intro h
    rcases exists_spelled words with ⟨parts, rfl⟩ | ⟨parts, how, rfl⟩
    · rw [takeRedirections_of_spelled] at h
      cases h
    · rw [takeRedirections_of_unfinished] at h
      cases h
      exact ⟨parts, how, rfl, rfl⟩
  · rintro ⟨parts, how, rfl, rfl⟩
    exact takeRedirections_of_unfinished parts how

/-- The redirectors behind all other words. -/
def trailing (words : List Word) : List Word := words.rtakeWhile Word.seeksTarget

/-- Behind a row of parts redirectors stand in pairs: one, and the one that it took for its target. -/
theorem even_trailing_spelled (parts : List Part) : Even (trailing (spelled parts)).length := by
  induction parts using List.reverseRecOn with
  | nil => simp [trailing]
  | append_singleton parts part ih =>
      cases part with
      | word w plain =>
          have hSeeks := seeksTarget_of_not_redirects plain
          simp [trailing, Part.words, hSeeks]
      | mergeErrors =>
          have hSeeks : (Word.plain Operator.mergeErrors.text).seeksTarget = false := rfl
          simp [trailing, Part.words, hSeeks]
      | redirect how target =>
          have hWords : spelled (parts ++ [.redirect how target]) =
              (spelled parts ++ [.plain how.text]) ++ [target] := by
            simp [Part.words]
          rw [hWords, trailing, List.rtakeWhile_concat]
          split
          · rw [List.rtakeWhile_concat_pos _ _ _ (seeksTarget_plain how)]
            simpa [trailing, Nat.even_add] using ih
          · simp

theorem odd_trailing_unfinished (parts : List Part) (how : Redirector) :
    Odd (trailing (spelled parts ++ [.plain how.text])).length := by
  rw [trailing, List.rtakeWhile_concat_pos _ _ _ (seeksTarget_plain how), List.length_append]
  exact (even_trailing_spelled parts).add_one

/-- A list cannot be read exactly if it ends in an odd number of redirectors. -/
theorem exists_error_iff {words : List Word} :
    (∃ fault, takeRedirections words = .error fault) ↔ Odd (trailing words).length := by
  rcases exists_spelled words with ⟨parts, rfl⟩ | ⟨parts, how, rfl⟩
  · have hEven := even_trailing_spelled parts
    simp [takeRedirections_of_spelled, hEven]
  · have hOdd := odd_trailing_unfinished parts how
    simp [takeRedirections_of_unfinished, hOdd]

/-- No redirection stands right behind a redirector. -/
def Apart (words : List Word) : Prop :=
  words.IsChain fun w next => (w.seeksTarget && next.redirects) = false

/-- The target of a redirection is not an operator itself. -/
theorem Apart.not_redirects {parts : List Part} (h : Apart (spelled parts)) {how : Redirector}
    {target : Word} (hPart : .redirect how target ∈ parts) : target.redirects = false := by
  obtain ⟨front, back, rfl⟩ := List.append_of_mem hPart
  have hWords : spelled (front ++ .redirect how target :: back) =
      spelled front ++ .plain how.text :: target :: spelled back := by
    simp [Part.words]
  rw [hWords] at h
  have hApart := (List.isChain_append_cons_cons.mp h).2.1
  rwa [seeksTarget_plain, Bool.true_and] at hApart

/-- Where redirections stand apart, a row of parts ends in no redirector. -/
theorem Apart.getLast?_spelled {parts : List Part} (h : Apart (spelled parts)) {w : Word}
    (hLast : (spelled parts).getLast? = some w) : w.seeksTarget = false := by
  rcases List.eq_nil_or_concat parts with rfl | ⟨front, part, rfl⟩
  · cases hLast
  · cases part with
    | word other plain =>
        obtain rfl : other = w := by simpa [Part.words] using hLast
        exact seeksTarget_of_not_redirects plain
    | mergeErrors =>
        obtain rfl : Word.plain Operator.mergeErrors.text = w := by simpa [Part.words] using hLast
        rfl
    | redirect how target =>
        obtain rfl : target = w := by simpa [Part.words] using hLast
        have hPart : Part.redirect how target ∈ front.concat (.redirect how target) := by simp
        exact seeksTarget_of_not_redirects (h.not_redirects hPart)

/-- Some redirector is the last word or stands in front of a redirection. -/
def Untargeted (words : List Word) : Prop :=
  ∃ front w back, words = front ++ w :: back ∧ w.seeksTarget = true ∧
    ∀ next, back.head? = some next → next.redirects = true

/-- Where no redirection stands right behind a redirector, the last word tells whether a target is
missing. -/
theorem Apart.untargeted_iff {words : List Word} (h : Apart words) :
    Untargeted words ↔ ∃ w, words.getLast? = some w ∧ w.seeksTarget = true := by
  constructor
  · rintro ⟨front, w, back, rfl, hSeeks, hNext⟩
    cases back with
    | nil => exact ⟨w, by simp, hSeeks⟩
    | cons next back =>
        have hApart := (List.isChain_append_cons_cons.mp h).2.1
        rw [hSeeks, hNext next rfl] at hApart
        cases hApart
  · rintro ⟨w, hLast, hSeeks⟩
    obtain ⟨front, rfl⟩ := List.getLast?_eq_some_iff.mp hLast
    exact ⟨front, w, [], rfl, hSeeks, nofun⟩

/-- What can be read, and how. The words that can be read are the rows of parts, where a redirector
takes the word behind it for its target, whatever it looks like. Words cannot be read exactly if a
redirector that is no target itself is the last of them, that is if they end in an odd number of
redirectors. Where no redirection stands right behind a redirector, words can be read exactly if each
redirector is followed by a word, and that word, which is no redirection, is its target. -/
theorem takeRedirections_grammar (words : List Word) :
    (∀ command found, takeRedirections words = .ok (command, found) ↔
      ∃ parts, words = spelled parts ∧ command = parts.filterMap Part.word? ∧
        found = parts.filterMap Part.redirection?) ∧
    (∀ fault, takeRedirections words = .error fault ↔
      ∃ parts how, words = spelled parts ++ [.plain (Redirector.text how)] ∧
        fault = .missingTarget how.text) ∧
    ((∃ fault, takeRedirections words = .error fault) ↔ Odd (trailing words).length) ∧
    (Apart words →
      ((∃ fault, takeRedirections words = .error fault) ↔ Untargeted words) ∧
      ∀ parts, words = spelled parts → ∀ how target, .redirect how target ∈ parts →
        target.redirects = false) := by
  refine ⟨fun command found => takeRedirections_eq_ok_iff, fun fault => takeRedirections_eq_error_iff,
    exists_error_iff, fun hApart => ⟨?_, ?_⟩⟩
  · rw [hApart.untargeted_iff]
    constructor
    · rintro ⟨fault, hFault⟩
      obtain ⟨parts, how, rfl, _⟩ := takeRedirections_eq_error_iff.mp hFault
      exact ⟨_, List.getLast?_concat .., seeksTarget_plain how⟩
    · rintro ⟨w, hLast, hSeeks⟩
      rcases exists_spelled words with ⟨parts, rfl⟩ | ⟨parts, how, rfl⟩
      · rw [hApart.getLast?_spelled hLast] at hSeeks
        cases hSeeks
      · exact ⟨_, takeRedirections_of_unfinished parts how⟩
  · rintro parts rfl how target hPart
    exact hApart.not_redirects hPart

/-- A quoted operator is a target like any other word. -/
theorem takeRedirections_grammar_quoted :
    Apart [.plain "sort", .plain ">", ⟨">", true⟩, .plain "2>&1"] ∧
    ¬ Untargeted [.plain "sort", .plain ">", ⟨">", true⟩, .plain "2>&1"] ∧
    takeRedirections [.plain "sort", .plain ">", ⟨">", true⟩, .plain "2>&1"] =
      .ok ([.plain "sort"], [.to .output ">", .mergeErrors]) := by
  obtain ⟨hOk, _, hOdd, hApart⟩ :=
    takeRedirections_grammar [.plain "sort", .plain ">", ⟨">", true⟩, .plain "2>&1"]
  have hChain : Apart [.plain "sort", .plain ">", ⟨">", true⟩, .plain "2>&1"] :=
    .cons_cons rfl (.cons_cons rfl (.cons_cons rfl (.singleton _)))
  have hRead := (hOk _ _).mpr ⟨[.word (.plain "sort") rfl, .redirect .output ⟨">", true⟩, .mergeErrors],
    rfl, rfl, rfl⟩
  refine ⟨hChain, ?_, hRead⟩
  rw [← (hApart hChain).1, hOdd]
  decide

/-- A redirector that another one follows is read without a fault: the second is its target, although
it is not quoted. -/
theorem redirector_as_target :
    Untargeted [.plain "echo", .plain "hi", .plain ">", .plain ">", .plain "f"] ∧
    takeRedirections [.plain "echo", .plain "hi", .plain ">", .plain ">", .plain "f"] =
      .ok ([.plain "echo", .plain "hi", .plain "f"], [.to .output ">"]) ∧
    (Word.plain ">").redirects = true := by
  have hNext : ∀ next, [Word.plain ">", .plain "f"].head? = some next → next.redirects = true := by
    intro next hHead
    cases hHead
    rfl
  exact ⟨⟨[.plain "echo", .plain "hi"], .plain ">", [.plain ">", .plain "f"], rfl, rfl, hNext⟩, rfl, rfl⟩

end Redirection

end TreeShell
