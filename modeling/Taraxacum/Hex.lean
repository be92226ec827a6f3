import Taraxacum.Json.Grammar

open json

namespace hex

/-- One digit, in lower case. -/
def digit (n : Nat) : UInt8 := UInt8.ofNat (Nat.digitChar n).toNat

/-- The digits of `n`, the most significant first and no zero before it. -/
def text (n : Nat) : Bytes := (Nat.toDigits 16 n).map fun c => UInt8.ofNat c.toNat

/-- What `%0<width>x` writes: zeros fill the width, a longer number takes what it needs. -/
def padded (width n : Nat) : Bytes := List.replicate (width - (text n).length) 0x30 ++ text n

/-- The number `s` continues `n` to. -/
def valueFrom (n : Nat) : Bytes → Option Nat
  | [] => some n
  | b :: s => do
    let d ← hexDigit? b
    valueFrom (16 * n + d) s

def value? (s : Bytes) : Option Nat := valueFrom 0 s

/-- Each of the sixteen digits is read back. -/
theorem hexDigit?_digit : ∀ n < 16, hexDigit? (digit n) = some n := by decide

/-- A number below 16 has one digit. -/
theorem text_of_lt {n : Nat} (h : n < 16) : text n = [digit n] := by
  rw [text, Nat.toDigits_of_lt_base h]
  rfl

/-- A number from 16 on has the digits of its sixteenth part and one more. -/
theorem text_of_le {n : Nat} (h : 16 ≤ n) : text n = text (n / 16) ++ [digit (n % 16)] := by
  rw [text, Nat.toDigits_of_base_le (by decide) h, List.map_append]
  rfl

/-- Zeros are put before a number up to the width, and none of its digits is cut off. -/
theorem le_length_padded (width n : Nat) : width ≤ (padded width n).length := by
  rw [padded, List.length_append, List.length_replicate]
  omega

/-- Two digits hold an octet. -/
theorem padded_two {n : Nat} (h : n < 256) : padded 2 n = [digit (n / 16), digit (n % 16)] := by
  by_cases hlt : n < 16
  · have hdiv : n / 16 = 0 := by omega
    have hmod : n % 16 = n := by omega
    rw [padded, text_of_lt hlt, hdiv, hmod]
    rfl
  · rw [padded, text_of_le (by omega), text_of_lt (by omega : n / 16 < 16)]
    rfl

@[simp] theorem valueFrom_nil (n : Nat) : valueFrom n [] = some n := rfl

/-- One digit more, read from the left. -/
theorem valueFrom_cons {b : UInt8} {d : Nat} (hb : hexDigit? b = some d) (n : Nat) (s : Bytes) :
    valueFrom n (b :: s) = valueFrom (16 * n + d) s := by
  rw [valueFrom, hb]
  rfl

/-- Digits in two parts are read one part after the other. -/
theorem valueFrom_append {n m : Nat} {s : Bytes} (hs : valueFrom n s = some m) (t : Bytes) :
    valueFrom n (s ++ t) = valueFrom m t := by
  induction s generalizing n with
  | nil =>
    obtain rfl : n = m := Option.some.inj hs
    rfl
  | cons b s ih =>
    obtain ⟨d, hd, hs⟩ := Option.bind_eq_some_iff.mp hs
    rw [List.cons_append, valueFrom_cons hd]
    exact ih hs

/-- Leading zeros count for nothing. -/
theorem value?_zeros (k : Nat) : value? (List.replicate k 0x30) = some 0 := by
  induction k with
  | zero => rfl
  | succ k ih =>
    rw [List.replicate_succ, value?, valueFrom_cons (d := 0) (by decide)]
    exact ih

/-- A number that is printed in base 16 is read back, of any size. -/
theorem value?_text (n : Nat) : value? (text n) = some n := by
  induction n using Nat.strongRecOn with
  | ind n ih =>
    by_cases hlt : n < 16
    · rw [text_of_lt hlt, value?, valueFrom_cons (hexDigit?_digit n hlt), valueFrom_nil]
      congr 1
      omega
    · have hhigh : value? (text (n / 16)) = some (n / 16) := ih (n / 16) (by omega)
      rw [text_of_le (by omega), value?, valueFrom_append hhigh]
      rw [valueFrom_cons (hexDigit?_digit (n % 16) (by omega)), valueFrom_nil]
      congr 1
      omega

/-- A padded number reads back as itself, however many digits it took. -/
theorem value?_padded (width n : Nat) : value? (padded width n) = some n := by
  rw [padded, value?, valueFrom_append (value?_zeros _)]
  exact value?_text n

/-- What has a value is made of digits. -/
theorem hexDigit?_ne_none_of_mem {n m : Nat} {s : Bytes} (hs : valueFrom n s = some m) {b : UInt8}
    (hb : b ∈ s) : hexDigit? b ≠ none := by
  induction s generalizing n with
  | nil => cases hb
  | cons c s ih =>
    obtain ⟨d, hd, hs⟩ := Option.bind_eq_some_iff.mp hs
    cases hb with
    | head =>
      rw [hd]
      exact Option.some_ne_none d
    | tail _ hmem => exact ih hs hmem

/-- Only digits are printed. -/
theorem not_mem_padded {b : UInt8} (hb : hexDigit? b = none) (width n : Nat) : b ∉ padded width n := by
  intro hmem
  exact hexDigit?_ne_none_of_mem (value?_padded width n) hmem hb

end hex
