import Mathlib.Data.List.Basic
import TreeShell.Sed

/-! The fields of a substitution script. Fields are written with letters, each of them a plain character
or a character behind a backslash, and a backslash lets the delimiter stand in a field. The reader looks
at one backslash at a time, so that the second one of an escaped backslash escapes a delimiter behind it:
the fields of a script are the ones that were written exactly if none of them ends in an escaped
backslash. -/
namespace TreeShell.Sed

/-- A letter of a field: a plain character, or a backslash and the character that it escapes. -/
inductive Letter (delimiter : CodePoint) where
  | plain (c : CodePoint) (ordinary : c ≠ delimiter ∧ c ≠ '\\')
  | escape (c : CodePoint)

variable {delimiter : CodePoint}

namespace Letter

def text : Letter delimiter → Text
  | plain c _ => [c]
  | escape c => [chr '\\', c]

/-- What is kept of a letter: a delimiter loses the backslash that escapes it. -/
def kept : Letter delimiter → Text
  | plain c _ => [c]
  | escape c => if c = delimiter then [c] else [chr '\\', c]

/-- Whether a letter is an escaped backslash. -/
def isBackslash : Letter delimiter → Bool
  | plain .. => false
  | escape c => c == '\\'

end Letter

def spelled (letters : List (Letter delimiter)) : Text := letters.flatMap Letter.text

/-- What is kept of a field. -/
def kept (letters : List (Letter delimiter)) : Text := letters.flatMap Letter.kept

/-- Whether a field ends in an escaped backslash. -/
def endsInBackslash (letters : List (Letter delimiter)) : Bool := letters.getLast?.any Letter.isBackslash

/-- What is kept of a field that ends in an escaped backslash, and of the delimiter behind it. -/
def overrun (letters : List (Letter delimiter)) : Text := kept letters.dropLast ++ [chr '\\', delimiter]

/-- Puts a text in front of the first field. -/
def prepend (front : Text) (rest : List Text) : List Text := front.foldr addToFirst rest

@[simp] theorem prepend_cons (front first : Text) (rest : List Text) :
    prepend front (first :: rest) = (front ++ first) :: rest := by
  induction front with
  | nil => rfl
  | cons c front ih =>
      change addToFirst c (prepend front (first :: rest)) = _
      rw [ih]
      rfl

@[simp] theorem prepend_append (front back : Text) (rest : List Text) :
    prepend (front ++ back) rest = prepend front (prepend back rest) :=
  List.foldr_append

theorem ne_backslash_of_reserved {c : CodePoint} (h : isReserved c = false) : c ≠ '\\' := by
  rintro rfl
  cases h

/-- A character that neither ends a field nor escapes what is behind it. -/
theorem fields_of_ordinary {c : CodePoint} (hEnds : c ≠ delimiter) {t : Text}
    (hEscapes : c = '\\' → t.head? ≠ some delimiter) :
    fields delimiter (c :: t) = addToFirst c (fields delimiter t) := by
  cases t with
  | nil => simp [fields, hEnds, addToFirst]
  | cons next t =>
      have hNext : ¬ (c = '\\' ∧ next = delimiter) := by
        rintro ⟨hBackslash, rfl⟩
        exact hEscapes hBackslash rfl
      simp only [fields, if_neg hNext, if_neg hEnds]

/-- Without a delimiter there is one field. -/
theorem fields_of_not_mem {t : Text} (h : delimiter ∉ t) : fields delimiter t = [t] := by
  induction t with
  | nil => rfl
  | cons c t ih =>
      rw [List.mem_cons, not_or] at h
      have hHead : t.head? ≠ some delimiter := fun hHead => h.2 (List.mem_of_head? hHead)
      rw [fields_of_ordinary (Ne.symm h.1) fun _ => hHead, ih h.2]
      rfl

section Delimiter

variable (hDelimiter : delimiter ≠ '\\')
include hDelimiter

theorem fields_delimiter (t : Text) : fields delimiter (delimiter :: t) = [] :: fields delimiter t := by
  cases t with
  | nil => simp [fields]
  | cons next t => simp [fields, hDelimiter]

/-- A letter does not begin with the delimiter. -/
theorem head?_text_append (letter : Letter delimiter) (rest : Text) :
    (letter.text ++ rest).head? ≠ some delimiter := by
  cases letter with
  | plain c ordinary => simpa [Letter.text] using ordinary.1
  | escape c => simpa [Letter.text] using Ne.symm hDelimiter

/-- A letter is kept, unless it is an escaped backslash in front of a delimiter. -/
theorem fields_letter (letter : Letter delimiter) {rest : Text}
    (h : letter.isBackslash = true → rest.head? ≠ some delimiter) :
    fields delimiter (letter.text ++ rest) = prepend letter.kept (fields delimiter rest) := by
  cases letter with
  | plain c ordinary => exact fields_of_ordinary ordinary.1 fun hSame => absurd hSame ordinary.2
  | escape c =>
      by_cases hEscaped : c = delimiter
      · simp [Letter.text, Letter.kept, hEscaped, fields, prepend]
      · have hSecond : fields delimiter (c :: rest) = addToFirst c (fields delimiter rest) :=
          fields_of_ordinary hEscaped fun hSame => h (by simp [Letter.isBackslash, hSame])
        have hFirst : fields delimiter (chr '\\' :: c :: rest) =
            addToFirst (chr '\\') (fields delimiter (c :: rest)) :=
          fields_of_ordinary (Ne.symm hDelimiter) fun _ => by simpa using hEscaped
        simp only [Letter.text, Letter.kept, if_neg hEscaped, List.cons_append, List.nil_append]
        rw [hFirst, hSecond]
        rfl

/-- A field is kept letter by letter, unless it ends in an escaped backslash in front of a delimiter. -/
theorem fields_spelled (letters : List (Letter delimiter)) {rest : Text}
    (h : endsInBackslash letters = true → rest.head? ≠ some delimiter) :
    fields delimiter (spelled letters ++ rest) = prepend (kept letters) (fields delimiter rest) := by
  induction letters with
  | nil => rfl
  | cons letter letters ih =>
      have hText : spelled (letter :: letters) ++ rest = letter.text ++ (spelled letters ++ rest) :=
        List.append_assoc ..
      have hKept : kept (letter :: letters) = letter.kept ++ kept letters := rfl
      rw [hText, hKept, prepend_append]
      cases letters with
      | nil => exact fields_letter hDelimiter letter h
      | cons next letters =>
          have hNext : (spelled (next :: letters) ++ rest).head? ≠ some delimiter := by
            have hHead := head?_text_append hDelimiter next (spelled letters ++ rest)
            rwa [← List.append_assoc] at hHead
          rw [fields_letter hDelimiter letter fun _ => hNext, ih h]

/-- A field up to the delimiter behind it. -/
theorem fields_before_delimiter {letters : List (Letter delimiter)}
    (h : endsInBackslash letters = false) (rest : Text) :
    fields delimiter (spelled letters ++ delimiter :: rest) = kept letters :: fields delimiter rest := by
  have hEnd : endsInBackslash letters = true → (delimiter :: rest).head? ≠ some delimiter := by
    rw [h]
    exact nofun
  rw [fields_spelled hDelimiter letters hEnd, fields_delimiter hDelimiter, prepend_cons, List.append_nil]

/-- An escaped backslash in front of a delimiter: its second character escapes the delimiter, which does
not end the field. -/
theorem fields_behind_backslash {letters : List (Letter delimiter)} (h : endsInBackslash letters = true)
    (rest : Text) : fields delimiter (spelled letters ++ delimiter :: rest) =
      prepend (overrun letters) (fields delimiter rest) := by
  rcases List.eq_nil_or_concat letters with rfl | ⟨front, last, rfl⟩
  · cases h
  · rw [List.concat_eq_append] at h ⊢
    rw [overrun, List.dropLast_concat]
    have hLast : last = .escape (chr '\\') := by
      cases last with
      | plain c ordinary => simp [endsInBackslash, Letter.isBackslash] at h
      | escape c => simpa [endsInBackslash, Letter.isBackslash] using h
    subst hLast
    have hText : spelled (front ++ [.escape (chr '\\')]) ++ delimiter :: rest =
        spelled front ++ chr '\\' :: chr '\\' :: delimiter :: rest := by
      simp [spelled, Letter.text]
    have hHead : (chr '\\' :: chr '\\' :: delimiter :: rest).head? ≠ some delimiter := by
      simpa using Ne.symm hDelimiter
    have hBackslash : fields delimiter (chr '\\' :: chr '\\' :: delimiter :: rest) =
        addToFirst (chr '\\') (addToFirst delimiter (fields delimiter rest)) := by
      rw [fields_of_ordinary (Ne.symm hDelimiter) fun _ => by simpa using Ne.symm hDelimiter]
      simp [fields]
    rw [hText, fields_spelled hDelimiter front fun _ => hHead, hBackslash, prepend_append]
    rfl

end Delimiter

/-- The three fields of a script, written one behind the other. -/
def written (delimiter : CodePoint) (expression replacement : List (Letter delimiter)) (flags : Text) :
    Text :=
  spelled expression ++ delimiter :: (spelled replacement ++ delimiter :: flags)

/-- The fields that are read of a script are the ones that were written, with every escaped delimiter in
place of its escape, exactly if neither of the first two ends in an escaped backslash. A field that does
runs on into the next one, and the script is then refused. -/
theorem fields_written (hDelimiter : isReserved delimiter = false)
    (expression replacement : List (Letter delimiter)) {flags : Text} (hFlags : delimiter ∉ flags) :
    (fields delimiter (written delimiter expression replacement flags) =
        [kept expression, kept replacement, flags] ↔
      endsInBackslash expression = false ∧ endsInBackslash replacement = false) ∧
    fields delimiter (written delimiter expression replacement flags) =
      (match endsInBackslash expression, endsInBackslash replacement with
      | false, false => [kept expression, kept replacement, flags]
      | true, false => [overrun expression ++ kept replacement, flags]
      | false, true => [kept expression, overrun replacement ++ flags]
      | true, true => [overrun expression ++ (overrun replacement ++ flags)]) ∧
    (endsInBackslash expression = true ∨ endsInBackslash replacement = true →
      Script.parse (chr 's' :: delimiter :: written delimiter expression replacement flags) =
        .error (.unsupportedScript (chr 's' :: delimiter :: written delimiter expression replacement flags))) := by
  have hEscape := ne_backslash_of_reserved hDelimiter
  have hLast := fields_of_not_mem hFlags
  rw [Script.parse, hDelimiter, written]
  cases hFirst : endsInBackslash expression with
  | false =>
      rw [fields_before_delimiter hEscape hFirst]
      cases hSecond : endsInBackslash replacement with
      | false => simp [fields_before_delimiter hEscape hSecond, hLast]
      | true => simp [fields_behind_backslash hEscape hSecond, hLast]
  | true =>
      rw [fields_behind_backslash hEscape hFirst]
      cases hSecond : endsInBackslash replacement with
      | false => simp [fields_before_delimiter hEscape hSecond, hLast]
      | true => simp [fields_behind_backslash hEscape hSecond, hLast]

/-- A slash that is escaped, and one behind an escaped character. -/
theorem fields_written_escapes :
    isReserved (chr '/') = false ∧ chr '/' ∉ ([chr 'g'] : Text) ∧
    written (chr '/') [.escape (chr '/'), .escape (chr '\\'), .plain (chr 'a') (by decide)]
      [.escape (chr '\\'), .escape (chr 'n'), .escape (chr '/')] [chr 'g'] = "\\/\\\\a/\\\\\\n\\//g" ∧
    fields (chr '/') "\\/\\\\a/\\\\\\n\\//g" = ["/\\\\a", "\\\\\\n/", "g"] := by
  have hReserved : isReserved (chr '/') = false := by decide
  have hFlags : chr '/' ∉ ([chr 'g'] : Text) := by decide
  have hFields := fields_written hReserved [.escape (chr '/'), .escape (chr '\\'), .plain (chr 'a') (by decide)]
    [.escape (chr '\\'), .escape (chr 'n'), .escape (chr '/')] hFlags
  exact ⟨hReserved, hFlags, rfl, hFields.1.mpr ⟨rfl, rfl⟩⟩

/-- A script whose expression is an escaped backslash: the delimiter behind it is taken for an escaped
one, and the script is refused. -/
theorem fields_behind_escaped_backslash :
    written (chr '/') [.escape (chr '\\')] [.plain (chr 'x') (by decide)] [] = "\\\\/x/" ∧
    kept ([.escape (chr '\\')] : List (Letter (chr '/'))) = "\\\\" ∧
    fields (chr '/') "\\\\/x/" = ["\\/x", ""] ∧
    Script.parse "s/\\\\/x/" = .error (.unsupportedScript "s/\\\\/x/") :=
  ⟨rfl, rfl, rfl, rfl⟩

end TreeShell.Sed
