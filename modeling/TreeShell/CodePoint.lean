/-! Code points, which texts are made of: the characters, and the surrogates, which stand in a text
on their own where half of a pair is missing. No encoding has bytes for a surrogate. -/
namespace TreeShell

/-- A character, or a surrogate by its distance from the first one. -/
inductive CodePoint where
  | chr (c : Char)
  | surrogate (half : Fin 0x800)
  deriving DecidableEq, Inhabited

export CodePoint (chr)

instance : Coe Char CodePoint := ⟨chr⟩

namespace CodePoint

def toNat : CodePoint → Nat
  | chr c => c.toNat
  | surrogate half => 0xd800 + half

/-- The code point with a number; there is a null character for numbers that are too large. -/
def ofNat (n : Nat) : CodePoint :=
  if h : 0xd800 ≤ n ∧ n - 0xd800 < 0x800 then surrogate ⟨n - 0xd800, h.2⟩ else chr (Char.ofNat n)

def isSurrogate : CodePoint → Bool
  | chr _ => false
  | surrogate _ => true

def isDigit : CodePoint → Bool
  | chr c => c.isDigit
  | surrogate _ => false

def isAlphanum : CodePoint → Bool
  | chr c => c.isAlphanum
  | surrogate _ => false

def toLower : CodePoint → CodePoint
  | chr c => chr c.toLower
  | c => c

/-- A code point is a scalar value or a surrogate, and its number says which. -/
theorem ofNat_toNat (c : CodePoint) : ofNat c.toNat = c := by
  cases c with
  | chr c =>
      have hOutside : ¬ (0xd800 ≤ c.toNat ∧ c.toNat - 0xd800 < 0x800) := by
        have hValid : c.toNat < 0xd800 ∨ 0xdfff < c.toNat ∧ c.toNat < 0x110000 := c.valid
        omega
      rw [toNat, ofNat, dif_neg hOutside, Char.ofNat_toNat]
  | surrogate half =>
      have hInside : 0xd800 ≤ 0xd800 + half.val ∧ 0xd800 + half.val - 0xd800 < 0x800 := by omega
      rw [toNat, ofNat, dif_pos hInside]
      exact congrArg surrogate (Fin.ext (Nat.add_sub_cancel_left ..))

/-- No two code points have the same number. -/
theorem toNat_injective {a b : CodePoint} (h : a.toNat = b.toNat) : a = b := by
  rw [← ofNat_toNat a, h, ofNat_toNat]

theorem toNat_trichotomy (a b : CodePoint) : a.toNat < b.toNat ∨ a = b ∨ b.toNat < a.toNat :=
  (Nat.lt_trichotomy a.toNat b.toNat).imp_right (Or.imp_left toNat_injective)

theorem range_of_isDigit {c : CodePoint} (h : c.isDigit = true) : 48 ≤ c.toNat ∧ c.toNat ≤ 57 := by
  cases c with
  | chr c => simpa [isDigit, toNat, Char.isDigit, UInt32.le_iff_toNat_le] using h
  | surrogate half => cases h

/-- Letters and digits in the narrow sense are three ranges of numbers, none of them near the
surrogates. -/
theorem range_of_isAlphanum {c : CodePoint} (h : c.isAlphanum = true) :
    (65 ≤ c.toNat ∧ c.toNat ≤ 90) ∨ (97 ≤ c.toNat ∧ c.toNat ≤ 122) ∨ (48 ≤ c.toNat ∧ c.toNat ≤ 57) := by
  cases c with
  | chr c =>
      change ((decide (65 ≤ c.val ∧ c.val ≤ 90) || (decide (97 ≤ c.val) && decide (c.val ≤ 122))) ||
        (decide (48 ≤ c.val) && decide (c.val ≤ 57))) = true at h
      simp only [Bool.or_eq_true, Bool.and_eq_true, decide_eq_true_eq, UInt32.le_iff_toNat_le] at h
      exact or_assoc.mp h
  | surrogate half => cases h

end CodePoint

end TreeShell
