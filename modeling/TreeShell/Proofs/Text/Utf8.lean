import TreeShell.Fault

/-! Reading back the bytes of a text, and the ends of its lines. A text without surrogates is read back
from its bytes, whatever characters it is made of; one that holds a surrogate has none. Plain ends of line
leave exactly the texts alone that hold no carriage return, since none is left behind. -/
namespace TreeShell.Text

section Bytes

variable (rest : List UInt8)

theorem decodeFrom_single {b : UInt8} (h : b.toNat < 0x80) :
    decodeFrom .start (b :: rest) = CodePoint.ofNat b.toNat :: decodeFrom .start rest := by
  rw [decodeFrom, decodeByte, decodeStart, if_pos h]
  rfl

/-- A leading byte announces how its character goes on. -/
theorem decodeFrom_lead {b : UInt8} {missing low high value : Nat} (hHigh : 0x80 ≤ b.toNat)
    (h : announced? b.toNat = some (missing, low, high, value)) :
    decodeFrom .start (b :: rest) = decodeFrom (.inside missing low high value) rest := by
  rw [decodeFrom, decodeByte, decodeStart, if_neg (Nat.not_lt_of_le hHigh), h]
  rfl

/-- A byte in the announced range goes on the character at hand. -/
theorem decodeFrom_more {b : UInt8} (missing : Nat) {low high value : Nat} (hLow : low ≤ b.toNat)
    (hHigh : b.toNat ≤ high) :
    decodeFrom (.inside (missing + 2) low high value) (b :: rest) =
      decodeFrom (.inside (missing + 1) 0x80 0xbf (value * 0x40 + (b.toNat - 0x80))) rest := by
  rw [decodeFrom, decodeByte, if_pos (by simp [hLow, hHigh])]
  rfl

/-- The last byte in the announced range ends the character at hand. -/
theorem decodeFrom_last {b : UInt8} {low high value : Nat} (hLow : low ≤ b.toNat)
    (hHigh : b.toNat ≤ high) :
    decodeFrom (.inside 1 low high value) (b :: rest) =
      CodePoint.ofNat (value * 0x40 + (b.toNat - 0x80)) :: decodeFrom .start rest := by
  rw [decodeFrom, decodeByte, if_pos (by simp [hLow, hHigh])]
  rfl

end Bytes

/-- The bytes behind the first one hold six bits each. -/
theorem toNat_tail (n shift : Nat) :
    (UInt8.ofNat (0x80 + (n >>> shift) % 0x40)).toNat = 0x80 + (n >>> shift) % 0x40 := by
  rw [UInt8.toNat_ofNat']
  omega

theorem announced?_two {n : Nat} (hLow : 0x80 ≤ n) (hHigh : n < 0x800) :
    announced? (0xc0 + n / 0x40) = some (1, 0x80, 0xbf, n / 0x40) := by
  rw [announced?, if_pos (by simp; omega)]
  simp

/-- Three bytes are announced with a range that keeps shorter characters and the gap out. -/
theorem announced?_three {n : Nat} (hLow : 0x800 ≤ n) (hHigh : n < 0x10000)
    (hGap : n < 0xd800 ∨ 0xdfff < n) :
    ∃ low high, announced? (0xe0 + n / 0x1000) = some (2, low, high, n / 0x1000) ∧
      low ≤ 0x80 + n / 0x40 % 0x40 ∧ 0x80 + n / 0x40 % 0x40 ≤ high := by
  rcases Nat.eq_zero_or_pos (n / 0x1000) with hFirst | hLater
  · exact ⟨0xa0, 0xbf, by rw [hFirst]; rfl, by omega, by omega⟩
  · by_cases hNext : n / 0x1000 = 0xd
    · exact ⟨0x80, 0x9f, by rw [hNext]; rfl, by omega, by omega⟩
    · have hOthers : ∀ m ∈ List.range 0x10, 0 < m → m ≠ 0xd →
          announced? (0xe0 + m) = some (2, 0x80, 0xbf, m) := by decide
      exact ⟨0x80, 0xbf, hOthers _ (List.mem_range.mpr (by omega)) hLater hNext, by omega, by omega⟩

theorem announced?_four {n : Nat} (hLow : 0x10000 ≤ n) (hHigh : n < 0x110000) :
    ∃ low high, announced? (0xf0 + n / 0x40000) = some (3, low, high, n / 0x40000) ∧
      low ≤ 0x80 + n / 0x1000 % 0x40 ∧ 0x80 + n / 0x1000 % 0x40 ≤ high := by
  rcases Nat.eq_zero_or_pos (n / 0x40000) with hFirst | hLater
  · exact ⟨0x90, 0xbf, by rw [hFirst]; rfl, by omega, by omega⟩
  · by_cases hEnd : n / 0x40000 = 4
    · exact ⟨0x80, 0x8f, by rw [hEnd]; rfl, by omega, by omega⟩
    · have hOthers : ∀ m ∈ List.range 4, 0 < m →
          announced? (0xf0 + m) = some (3, 0x80, 0xbf, m) := by decide
      exact ⟨0x80, 0xbf, hOthers _ (List.mem_range.mpr (by omega)) hLater, by omega, by omega⟩

/-- A character is read back from its bytes. -/
theorem decodeFrom_encodeChar (c : Char) (rest : List UInt8) :
    decodeFrom .start (encodeChar c ++ rest) = chr c :: decodeFrom .start rest := by
  have hValid : c.toNat < 0xd800 ∨ 0xdfff < c.toNat ∧ c.toNat < 0x110000 := c.valid
  have hSame : ∀ n, n = c.toNat → CodePoint.ofNat n = chr c := fun n hn => by
    rw [hn]
    exact CodePoint.ofNat_toNat (chr c)
  have hLead : ∀ n < 0x100, (UInt8.ofNat n).toNat = n := fun n hn => by
    rw [UInt8.toNat_ofNat', Nat.mod_eq_of_lt hn]
  have hTail := toNat_tail c.toNat
  rw [encodeChar]
  by_cases hOne : c.toNat < 0x80
  · have hByte := hLead c.toNat (by omega)
    rw [if_pos hOne]
    refine (decodeFrom_single rest (by rw [hByte]; exact hOne)).trans ?_
    rw [hByte, hSame _ rfl]
  · rw [if_neg hOne]
    by_cases hTwo : c.toNat < 0x800
    · have hByte := hLead (0xc0 + c.toNat / 0x40) (by omega)
      rw [if_pos hTwo]
      refine (decodeFrom_lead _ (by omega) (by rw [hByte]; exact announced?_two (by omega) hTwo)).trans ?_
      refine (decodeFrom_last _ (by rw [hTail]; omega) (by rw [hTail]; omega)).trans ?_
      rw [hSame _ (by rw [hTail]; omega)]
      rfl
    · rw [if_neg hTwo]
      by_cases hThree : c.toNat < 0x10000
      · have hByte := hLead (0xe0 + c.toNat / 0x1000) (by omega)
        obtain ⟨low, high, hFound, hLow, hHigh⟩ := announced?_three (by omega) hThree (by omega)
        rw [if_pos hThree]
        refine (decodeFrom_lead _ (by omega) (by rw [hByte]; exact hFound)).trans ?_
        refine (decodeFrom_more _ 0 (by rw [hTail]; omega) (by rw [hTail]; omega)).trans ?_
        refine (decodeFrom_last _ (by rw [hTail]; omega) (by rw [hTail]; omega)).trans ?_
        rw [hSame _ (by rw [hTail, hTail]; omega)]
        rfl
      · have hByte := hLead (0xf0 + c.toNat / 0x40000) (by omega)
        obtain ⟨low, high, hFound, hLow, hHigh⟩ := announced?_four (n := c.toNat) (by omega) (by omega)
        rw [if_neg hThree]
        refine (decodeFrom_lead _ (by omega) (by rw [hByte]; exact hFound)).trans ?_
        refine (decodeFrom_more _ 1 (by rw [hTail]; omega) (by rw [hTail]; omega)).trans ?_
        refine (decodeFrom_more _ 0 (by rw [hTail]; omega) (by rw [hTail]; omega)).trans ?_
        refine (decodeFrom_last _ (by rw [hTail]; omega) (by rw [hTail]; omega)).trans ?_
        rw [hSame _ (by rw [hTail, hTail, hTail]; omega)]
        rfl

/-- A text that has bytes holds no surrogate. -/
def HasBytes (t : Text) : Prop := ∀ c ∈ t, c.isSurrogate = false

instance (t : Text) : Decidable t.HasBytes := inferInstanceAs (Decidable (∀ c ∈ t, c.isSurrogate = false))

/-- A text has bytes exactly if no surrogate is found in it. -/
theorem surrogates?_eq_none_iff {t : Text} : t.surrogates? = none ↔ t.HasBytes := by
  have hRun : (t.dropWhile (!·.isSurrogate)).takeWhile (·.isSurrogate) = [] ↔ t.HasBytes := by
    induction t with
    | nil => simp [HasBytes]
    | cons c t ih =>
        rw [HasBytes, List.forall_mem_cons, ← HasBytes, ← ih]
        cases hc : c.isSurrogate <;> simp [hc]
  rw [← hRun, surrogates?]
  simp

theorem measure_of_hasBytes {t : Text} (h : t.HasBytes) : t.measure = .ok t.byteCount := by
  rw [measure, surrogates?_eq_none_iff.mpr h]

/-- Measuring a text without bytes fails, and names the first run of surrogates. -/
theorem exists_measure_eq_error {t : Text} (h : ¬ t.HasBytes) :
    ∃ position run, t.measure = .error (.unencodable position run) := by
  rw [measure]
  cases hRun : t.surrogates? with
  | none => exact absurd (surrogates?_eq_none_iff.mp hRun) h
  | some found => exact ⟨found.1, found.2, rfl⟩

/-- A text that has bytes is read back from them. -/
theorem decode_encode {t : Text} (h : t.HasBytes) : decode (encode t) = t := by
  rw [decode]
  induction t with
  | nil => rfl
  | cons c t ih =>
      obtain ⟨hFirst, hRest⟩ := List.forall_mem_cons.mp h
      cases c with
      | chr c =>
          rw [encode, List.flatMap_cons, decodeFrom_encodeChar]
          exact congrArg (chr c :: ·) (ih hRest)
      | surrogate half => cases hFirst

/-! ## Ends of line -/

theorem HasBytes.plainEnds {t : Text} (h : t.HasBytes) : (plainEnds t).HasBytes := by
  fun_induction Text.plainEnds t with
  | case1 rest ih => exact List.forall_mem_cons.mpr ⟨rfl, ih (List.forall_mem_cons.mp (List.forall_mem_cons.mp h).2).2⟩
  | case2 rest _ ih => exact List.forall_mem_cons.mpr ⟨rfl, ih (List.forall_mem_cons.mp h).2⟩
  | case3 c rest _ _ ih =>
      obtain ⟨hFirst, hRest⟩ := List.forall_mem_cons.mp h
      exact List.forall_mem_cons.mpr ⟨hFirst, ih hRest⟩
  | case4 => exact h

theorem not_mem_plainEnds (t : Text) : chr '\r' ∉ plainEnds t := by
  fun_induction plainEnds t with
  | case1 rest ih => simp [ih]
  | case2 rest _ ih => simp [ih]
  | case3 c rest _ hOther ih =>
      have hReturn : '\r' ≠ c := fun hSame => hOther hSame.symm
      simpa using ⟨hReturn, ih⟩
  | case4 => simp

/-- Without returns all ends of lines are plain. -/
theorem plainEnds_of_not_mem {t : Text} (h : chr '\r' ∉ t) : plainEnds t = t := by
  fun_induction plainEnds t with
  | case1 => simp at h
  | case2 => simp at h
  | case3 c rest _ _ ih =>
      rw [List.mem_cons, not_or] at h
      rw [ih h.2]
  | case4 => rfl

/-- Only carriage returns are lost. -/
theorem plainEnds_eq_self_iff {t : Text} : plainEnds t = t ↔ chr '\r' ∉ t :=
  ⟨fun h => h ▸ not_mem_plainEnds t, plainEnds_of_not_mem⟩

end TreeShell.Text
