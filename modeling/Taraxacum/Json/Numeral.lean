import Taraxacum.Json.Grammar

namespace json

/-- What may follow a numeral without lengthening it. -/
def NumeralEnds (r : Bytes) : Prop := ∀ b ∈ r.head?, isNumeralByte b = false

/-- A digit can stand in a numeral. -/
theorem isNumeralByte_of_isDigit {b : UInt8} (h : isDigit b = true) : isNumeralByte b = true := by
  simp [isNumeralByte, h]

/-- A row of digits has only octets that can stand in a numeral. -/
theorem isNumeralByte_of_isDigits {s : Bytes} (h : isDigits s = true) :
    ∀ b ∈ s, isNumeralByte b = true := by
  intro b hb
  simp only [isDigits, Bool.and_eq_true, List.all_eq_true] at h
  exact isNumeralByte_of_isDigit (h.2 b hb)

theorem isNumeralByte_of_isExponent {s : Bytes} (h : isExponent s = true) :
    ∀ b ∈ s, isNumeralByte b = true := by
  unfold isExponent at h
  split at h
  · simp
  · rename_i e s
    simp only [Bool.and_eq_true, Bool.or_eq_true, beq_iff_eq] at h
    obtain ⟨hmark, hdigits⟩ := h
    have hfirst : isNumeralByte e = true := by rcases hmark with rfl | rfl <;> decide
    split at hdigits
    · rename_i sign t
      split at hdigits
      · rename_i hsign
        have hsecond : isNumeralByte sign = true := by
          rcases (by simpa using hsign : sign = 0x2D ∨ sign = 0x2B) with rfl | rfl <;> decide
        have htail := isNumeralByte_of_isDigits hdigits
        rw [List.forall_mem_cons, List.forall_mem_cons]
        exact ⟨hfirst, hsecond, htail⟩
      · have htail := isNumeralByte_of_isDigits hdigits
        rw [List.forall_mem_cons]
        exact ⟨hfirst, htail⟩
    · cases hdigits

/-- Digits and then the rest of a numeral are octets of numerals throughout. -/
private theorem isNumeralByte_of_digits_then {s : Bytes}
    (h : ∀ b ∈ s.dropWhile isDigit, isNumeralByte b = true) : ∀ b ∈ s, isNumeralByte b = true := by
  intro b hb
  rw [← List.takeWhile_append_dropWhile (p := isDigit) (l := s), List.mem_append] at hb
  obtain hb | hb := hb
  · exact isNumeralByte_of_isDigit (List.all_eq_true.mp List.all_takeWhile b hb)
  · exact h b hb

theorem isNumeralByte_of_isFraction {s : Bytes} (h : isFraction s = true) :
    ∀ b ∈ s, isNumeralByte b = true := by
  unfold isFraction at h
  split at h
  · rename_i s
    simp only [Bool.and_eq_true] at h
    rw [List.forall_mem_cons]
    exact ⟨by decide, isNumeralByte_of_digits_then (isNumeralByte_of_isExponent h.2)⟩
  · exact isNumeralByte_of_isExponent h

theorem isNumeralByte_of_isUnsigned {s : Bytes} (h : isUnsigned s = true) :
    ∀ b ∈ s, isNumeralByte b = true := by
  unfold isUnsigned at h
  split at h
  · simp
  · rename_i d s
    rw [List.forall_mem_cons]
    split at h
    · rename_i hzero
      rw [beq_iff_eq] at hzero
      exact ⟨by rw [hzero]; decide, isNumeralByte_of_isFraction h⟩
    · simp only [Bool.and_eq_true] at h
      exact ⟨isNumeralByte_of_isDigit h.1,
        isNumeralByte_of_digits_then (isNumeralByte_of_isFraction h.2)⟩

/-- Every octet of a numeral can stand in one, so that its end is where another octet stands. -/
theorem isNumeralByte_of_isNumeral {n : Bytes} (h : isNumeral n = true) :
    ∀ b ∈ n, isNumeralByte b = true := by
  unfold isNumeral at h
  split at h
  · rw [List.forall_mem_cons]
    exact ⟨by decide, isNumeralByte_of_isUnsigned h⟩
  · exact isNumeralByte_of_isUnsigned h

/-- A numeral has at least one octet. -/
theorem ne_nil_of_isNumeral {n : Bytes} (h : isNumeral n = true) : n ≠ [] := by
  rintro rfl
  cases h

/-- A numeral is read whole when nothing after it could lengthen it. -/
theorem takeWhile_numeral {n r : Bytes} (hn : isNumeral n = true) (hr : NumeralEnds r) :
    (n ++ r).takeWhile isNumeralByte = n ∧ (n ++ r).dropWhile isNumeralByte = r := by
  have hall := isNumeralByte_of_isNumeral hn
  rw [List.takeWhile_append_of_pos hall, List.dropWhile_append_of_pos hall]
  cases r with
  | nil => simp
  | cons b r =>
    have hb : isNumeralByte b = false := hr b rfl
    simp [hb]

/-- Whitespace, structural characters and the end of the text end a numeral. -/
theorem Ws.numeralEnds {s r : Bytes} (h : Ws s r) (hr : NumeralEnds r) : NumeralEnds s := by
  cases h with
  | nil => exact hr
  | @cons b s r hws htail =>
    intro c hc
    obtain rfl : b = c := by simpa using hc
    simp only [isWs, Bool.or_eq_true, beq_iff_eq] at hws
    rcases hws with ((rfl | rfl) | rfl) | rfl <;> decide

theorem numeralEnds_nil : NumeralEnds [] := by simp [NumeralEnds]

theorem numeralEnds_cons {b : UInt8} {r : Bytes} (hb : isNumeralByte b = false) : NumeralEnds (b :: r) := by
  simpa [NumeralEnds] using hb

end json
