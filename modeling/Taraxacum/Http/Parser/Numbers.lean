import Taraxacum.Hex
import Taraxacum.Push.Leads
import Taraxacum.Http.Parser.Control

open json exec push

namespace taraxacum

/-- A number is printed as its digits in base 10. -/
theorem decimal_eq_map (n : Nat) : decimal n = (Nat.toDigits 10 n).map fun c => UInt8.ofNat c.toNat := by
  rw [decimal, lit, Nat.toList_repr]

/-- A number below 10 has one digit. -/
theorem decimal_of_lt {n : Nat} (h : n < 10) : decimal n = [hex.digit n] := by
  rw [decimal_eq_map, Nat.toDigits_of_lt_base h]
  rfl

/-- A number from 10 on has the digits of its tenth part and one more. -/
theorem decimal_of_le {n : Nat} (h : 10 ≤ n) : decimal n = decimal (n / 10) ++ [hex.digit (n % 10)] := by
  rw [decimal_eq_map, decimal_eq_map, Nat.toDigits_of_base_le (by decide) h, List.map_append]
  rfl

namespace http

/-- Each of the ten digits is read as its number. -/
theorem digit_decimal : ∀ n < 10, is_digit (hex.digit n) = true ∧ (hex.digit n).toNat - 0x30 = n := by decide

/-- No digit ends a line or a value. -/
theorem is_digit_ne : ∀ c, is_digit c = true → c ≠ 0x0D ∧ c ≠ 0x20 ∧ c ≠ 0x09 ∧ to_value_char c ≠ 0 :=
  forall_octet (by decide +kernel)

/-- No digit in base 16 ends the size of a chunk. -/
theorem hex_digit_ne : ∀ n < 16, hex.digit n ≠ 0x0D ∧ hex.digit n ≠ 0x3B := by decide

namespace basic_parser_v1

section
variable {isRequest : Bool} {what : body_what} {c : basic_parser_v1}

/-- A number that is read as the length of the body, from its first digit to its last. -/
theorem quiet_decimal (isRequest : Bool) (what : body_what) {n : Nat} (hn : n < 18446744073709551610)
    (hs : c.s_ = .s_header_value) (hcb : c.cb_ = some .call_on_value) (hfs : c.fs_ = .h_content_length0) :
    ∃ d ds k, decimal n = d :: ds ∧ is_digit d = true ∧
      header_value d c = pure ({ c with content_length_ := k, fs_ := .h_content_length }, false) ∧
      Quiet (machine isRequest what) (some .call_on_value) ds
        { c with content_length_ := k, fs_ := .h_content_length }
        { c with content_length_ := n, fs_ := .h_content_length } := by
  induction n using Nat.strongRecOn with
  | ind n ih =>
    by_cases hlt : n < 10
    · obtain ⟨hdigit, hvalue⟩ := digit_decimal n hlt
      obtain ⟨hcr, -, -, htext⟩ := is_digit_ne _ hdigit
      refine ⟨hex.digit n, [], n, decimal_of_lt hlt, hdigit, ?_, .nil⟩
      rw [header_value, if_neg (by simpa using hcr), if_neg (by simpa using htext), value_char, hfs]
      dsimp only
      rw [hdigit, Bool.not_true, if_neg Bool.false_ne_true, hvalue]
      rfl
    · obtain ⟨d, ds, k, htext, hd, hfirst, hquiet⟩ := ih (n / 10) (by omega) (by omega)
      obtain ⟨hdigit, hvalue⟩ := digit_decimal (n % 10) (by omega)
      obtain ⟨hcr, hspace, htab, hchar⟩ := is_digit_ne _ hdigit
      have hturn : turn isRequest what { c with content_length_ := n / 10, fs_ := .h_content_length } 1
          (hex.digit (n % 10)) = pure ({ c with content_length_ := n, fs_ := .h_content_length }, false) := by
        have hstate : turn isRequest what { c with content_length_ := n / 10, fs_ := .h_content_length } 1
            (hex.digit (n % 10)) =
            header_value (hex.digit (n % 10))
              { c with content_length_ := n / 10, fs_ := .h_content_length } := by
          rw [turn, hs]
        have hroom : ¬n / 10 > (no_content_length - 10) / 10 := by
          rw [no_content_length]
          omega
        have hsum : n / 10 * 10 + n % 10 = n := by omega
        rw [hstate, header_value, if_neg (by simpa using hcr), if_neg (by simpa using hchar), value_char]
        dsimp only
        rw [if_neg (by simp [hspace, htab]), hdigit, Bool.not_true, if_neg Bool.false_ne_true,
          if_neg hroom, hvalue, hsum]
        rfl
      refine ⟨d, ds ++ [hex.digit (n % 10)], k, ?_, hd, hfirst, hquiet.append (.one hturn hcb)⟩
      rw [decimal_of_le (by omega), htext, List.cons_append]

/-- The size of a chunk. -/
theorem quiet_hex (isRequest : Bool) (what : body_what) {n : Nat} (hn : n < 18446744073709551600)
    (hs : c.s_ = .s_chunk_size0) (hcb : c.cb_ = none) :
    Quiet (machine isRequest what) none (hex.text n) c
      { c with content_length_ := n, s_ := .s_chunk_size } := by
  induction n using Nat.strongRecOn with
  | ind n ih =>
    by_cases hlt : n < 16
    · have hdigit : unhex (hex.digit n) = some n := hex.hexDigit?_digit n hlt
      have hturn : turn isRequest what c 1 (hex.digit n) =
          pure ({ c with content_length_ := n, s_ := .s_chunk_size }, false) := by
        rw [turn, hs]
        dsimp only
        rw [hdigit]
      rw [hex.text_of_lt hlt]
      exact .one hturn hcb
    · have hdigit : unhex (hex.digit (n % 16)) = some (n % 16) := hex.hexDigit?_digit (n % 16) (by omega)
      obtain ⟨hcr, hext⟩ := hex_digit_ne (n % 16) (by omega)
      have hroom : ¬n / 16 > (no_content_length - 16) / 16 := by
        rw [no_content_length]
        omega
      have hsum : n / 16 * 16 + n % 16 = n := by omega
      have hturn : turn isRequest what { c with content_length_ := n / 16, s_ := .s_chunk_size } 1
          (hex.digit (n % 16)) = pure ({ c with content_length_ := n, s_ := .s_chunk_size }, false) := by
        change chunk_size _ _ = _
        rw [chunk_size, if_neg (by simpa using hcr), if_neg (by simpa using hext), hdigit]
        dsimp only
        rw [if_neg hroom, hsum]
      rw [hex.text_of_le (by omega)]
      exact (ih (n / 16) (by omega) (by omega)).append (.one hturn hcb)

/-- The three digits of a status code. -/
theorem quiet_status (isRequest : Bool) (what : body_what) {n : Nat} (hn : 100 ≤ n ∧ n ≤ 999)
    (hs : c.s_ = .s_res_status0) (hcb : c.cb_ = none) :
    Quiet (machine isRequest what) none (decimal n) c { c with status_code_ := n, s_ := .s_res_space_2 } := by
  have htext : decimal n = [hex.digit (n / 100), hex.digit (n / 10 % 10), hex.digit (n % 10)] := by
    rw [decimal_of_le (by omega), decimal_of_le (by omega : 10 ≤ n / 10),
      decimal_of_lt (by omega : n / 10 / 10 < 10),
      Nat.div_div_eq_div_mul]
    rfl
  obtain ⟨hd, hv⟩ := digit_decimal (n / 100) (by omega)
  obtain ⟨hd', hv'⟩ := digit_decimal (n / 10 % 10) (by omega)
  obtain ⟨hd'', hv''⟩ := digit_decimal (n % 10) (by omega)
  have hfirst : turn isRequest what c 1 (hex.digit (n / 100)) =
      pure ({ c with status_code_ := n / 100, s_ := .s_res_status1 }, false) := by
    rw [turn, hs]
    dsimp only
    rw [digit, hd, Bool.not_true, if_neg Bool.false_ne_true, hv]
  have hsecond : turn isRequest what { c with status_code_ := n / 100, s_ := .s_res_status1 } 1
      (hex.digit (n / 10 % 10)) = pure ({ c with status_code_ := n / 10, s_ := .s_res_status2 }, false) := by
    have hsum : n / 100 * 10 + n / 10 % 10 = n / 10 := by omega
    change digit _ _ _ _ = _
    rw [digit, hd', Bool.not_true, if_neg Bool.false_ne_true, hv', hsum]
  have hthird : turn isRequest what { c with status_code_ := n / 10, s_ := .s_res_status2 } 1
      (hex.digit (n % 10)) = pure ({ c with status_code_ := n, s_ := .s_res_space_2 }, false) := by
    have hsum : n / 10 * 10 + n % 10 = n := by omega
    change digit _ _ _ _ = _
    rw [digit, hd'', Bool.not_true, if_neg Bool.false_ne_true, hv'', hsum]
  rw [htext]
  exact .cons hfirst hcb (.cons hsecond hcb (.one hthird hcb))

end

end basic_parser_v1

end http

end taraxacum
