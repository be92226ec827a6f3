import Mathlib.Data.List.DropRight
import Taraxacum.Http.Message

open json

namespace taraxacum.http

def is_digit (c : UInt8) : Bool := 0x30 ≤ c && c ≤ 0x39

/-- Any octet but the control characters, with HTAB among the text. -/
def is_text (c : UInt8) : Bool := c == 0x09 || (0x20 ≤ c && c != 0x7F)

/-- The octet in lower case, or 0 if it is not part of a token. -/
def to_field_char (c : UInt8) : UInt8 := if is_tchar c then tolower c else 0

/-- The octet in lower case, or 0 if it is not text. -/
def to_value_char (c : UInt8) : UInt8 := if is_text c then tolower c else 0

/-- The value of a hexadecimal digit; the source has -1 for the other octets. -/
def unhex (c : UInt8) : Option Nat := hexDigit? c

/-- Trimming only takes octets away. -/
theorem mem_of_mem_trim {s : Bytes} {ch : UInt8} (h : ch ∈ trim s) : ch ∈ s := by
  have hleft := (List.dropWhile_sublist is_ows (l := s)).subset
  have hright := (List.dropWhile_sublist is_ows (l := (s.dropWhile is_ows).reverse)).subset
  exact hleft (List.mem_reverse.mp (hright (List.mem_reverse.mp h)))

/-- Nothing is left to trim of a value that was trimmed. -/
theorem trim_trim (s : Bytes) : trim (trim s) = trim s := by
  set t := s.dropWhile is_ows with ht
  have hrdrop : trim s = t.rdropWhile is_ows := rfl
  have hhead : (t.rdropWhile is_ows).dropWhile is_ows = t.rdropWhile is_ows := by
    rw [List.dropWhile_eq_self_iff]
    intro hpos
    have hbegin := List.rdropWhile_prefix is_ows (l := t)
    have ht' : t.dropWhile is_ows = t := List.dropWhile_idempotent is_ows s
    have hfirst := List.dropWhile_eq_self_iff.mp ht' (Nat.lt_of_lt_of_le hpos hbegin.length_le)
    rwa [List.IsPrefix.getElem hbegin hpos]
  rw [hrdrop]
  change ((t.rdropWhile is_ows).dropWhile is_ows).rdropWhile is_ows = _
  rw [hhead, List.rdropWhile_idempotent]

/-- A property of every octet is decided for the 256 of them, one by one. -/
theorem forall_octet {P : UInt8 → Prop} (h : ∀ n < 256, P (UInt8.ofNat n)) (c : UInt8) : P c := by
  have hc := h c.toNat c.toNat_lt
  rwa [UInt8.ofNat_toNat] at hc

/-- The table of name characters is zero exactly where there is no token character. -/
theorem to_field_char_eq_zero : ∀ c, to_field_char c = 0 ↔ is_tchar c = false :=
  forall_octet (by decide +kernel)

/-- The table of value characters is zero exactly where there is no text. -/
theorem to_value_char_eq_zero : ∀ c, to_value_char c = 0 ↔ is_text c = false :=
  forall_octet (by decide +kernel)

/-- Every token character may stand in a value. -/
theorem is_text_of_is_tchar : ∀ c, is_tchar c = true → is_text c = true :=
  forall_octet (by decide +kernel)

/-- No line can be ended, and no field value begun, by what is text. -/
theorem is_text_ne : ∀ c, is_text c = true → c ≠ 0x0D ∧ c ≠ 0x0A :=
  forall_octet (by decide +kernel)

/-- No token character separates the parts of a line. -/
theorem is_tchar_ne : ∀ c, is_tchar c = true → c ≠ 0x20 ∧ c ≠ 0x09 ∧ c ≠ 0x3A ∧ c ≠ 0x2C ∧ c ≠ 0x0D :=
  forall_octet (by decide +kernel)

/-- Every digit may stand in a token. -/
theorem is_tchar_of_is_digit : ∀ c, is_digit c = true → is_tchar c = true :=
  forall_octet (by decide +kernel)

end taraxacum.http
