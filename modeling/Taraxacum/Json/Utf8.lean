import Taraxacum.Json.Grammar

namespace json

/-- Octets that are the UTF-8 encoding of some characters. -/
def ValidUtf8 (s : Bytes) : Prop := ∃ cs : List Char, s = cs.flatMap String.utf8EncodeChar

/-- The encoding of a character is one ASCII octet, or has none. -/
theorem utf8EncodeChar_cases (c : Char) :
    (∃ b, String.utf8EncodeChar c = [b] ∧ b < 0x80) ∨ ∀ b ∈ String.utf8EncodeChar c, 0x80 ≤ b := by
  unfold String.utf8EncodeChar
  simp only
  split
  · rename_i hle
    refine .inl ⟨_, rfl, ?_⟩
    rw [UInt8.lt_iff_toNat_lt, UInt8.toNat_ofNat']
    have hsmall : c.val.toNat % 2 ^ 8 ≤ c.val.toNat := Nat.mod_le _ _
    have hbound : (0x80 : UInt8).toNat = 128 := rfl
    omega
  · split
    · right
      simp [UInt8.le_iff_toNat_le]
      omega
    · split
      · right
        simp [UInt8.le_iff_toNat_le]
        omega
      · right
        simp [UInt8.le_iff_toNat_le]
        omega

theorem ValidUtf8.nil : ValidUtf8 [] := ⟨[], rfl⟩

/-- Two texts in UTF-8 are one when put together. -/
theorem ValidUtf8.append {s t : Bytes} (hs : ValidUtf8 s) (ht : ValidUtf8 t) : ValidUtf8 (s ++ t) := by
  obtain ⟨cs, rfl⟩ := hs
  obtain ⟨ds, rfl⟩ := ht
  exact ⟨cs ++ ds, by rw [List.flatMap_append]⟩

/-- An octet of ASCII may stand before a text in UTF-8. -/
theorem ValidUtf8.cons {b : UInt8} {s : Bytes} (hb : b < 0x80) (hs : ValidUtf8 s) : ValidUtf8 (b :: s) := by
  obtain ⟨cs, rfl⟩ := hs
  refine ⟨Char.ofNat b.toNat :: cs, ?_⟩
  have hsmall : b.toNat < 0x80 := UInt8.lt_iff_toNat_lt.mp hb
  have hval : (Char.ofNat b.toNat).val.toNat = b.toNat := by
    rw [Char.ofNat, dif_pos (.inl (by omega))]
    rfl
  have hchar : String.utf8EncodeChar (Char.ofNat b.toNat) = [b] := by
    simp only [String.utf8EncodeChar, hval, if_pos (by omega : b.toNat ≤ 0x7f), UInt8.ofNat_toNat]
  rw [List.flatMap_cons, hchar]
  rfl

def isAscii (s : Bytes) : Bool := s.all (· < 0x80)

/-- ASCII is decided octet by octet. -/
@[simp] theorem isAscii_cons {b : UInt8} {s : Bytes} :
    isAscii (b :: s) = true ↔ b < 0x80 ∧ isAscii s = true := by
  simp [isAscii]

/-- Every text of ASCII is one in UTF-8. -/
theorem validUtf8_of_ascii {s : Bytes} (h : isAscii s = true) : ValidUtf8 s := by
  induction s with
  | nil => exact .nil
  | cons b s ih =>
    rw [isAscii_cons] at h
    exact .cons h.1 (ih h.2)

/-- An ASCII octet never stands inside the encoding of another character, so
    it splits an encoded text in two. -/
theorem validUtf8_append_cons_iff {s t : Bytes} {b : UInt8} (hb : b < 0x80) :
    ValidUtf8 (s ++ b :: t) ↔ ValidUtf8 s ∧ ValidUtf8 t := by
  constructor
  · rintro ⟨cs, hcs⟩
    induction cs generalizing s with
    | nil => simp at hcs
    | cons c cs ih =>
      rw [List.flatMap_cons] at hcs
      rcases List.append_eq_append_iff.mp hcs with ⟨p, hp, hrest⟩ | ⟨p, rfl, hrest⟩
      · cases p with
        | nil =>
          rw [List.append_nil] at hp
          obtain ⟨_, ht⟩ := ih (s := []) (by simpa using hrest)
          exact ⟨⟨[c], by rw [List.flatMap_singleton, hp]⟩, ht⟩
        | cons b' p =>
          obtain ⟨rfl, rfl⟩ : b = b' ∧ t = p ++ cs.flatMap String.utf8EncodeChar := by simpa using hrest
          rcases utf8EncodeChar_cases c with ⟨a, hchar, _⟩ | hhigh
          · rw [hchar] at hp
            obtain ⟨rfl, rfl⟩ : s = [] ∧ p = [] := by
              cases s with
              | nil => simpa using (List.cons.inj hp).2.symm
              | cons _ s => simp at hp
            exact ⟨.nil, cs, rfl⟩
          · have hle := hhigh b (by rw [hp]; simp)
            exact absurd hle (UInt8.not_le.mpr hb)
      · obtain ⟨hs, ht⟩ := ih hrest.symm
        exact ⟨ValidUtf8.append ⟨[c], by rw [List.flatMap_singleton]⟩ hs, ht⟩
  · rintro ⟨hs, ht⟩
    exact hs.append (.cons hb ht)

/-- An octet of ASCII begins no longer sequence, so that it can be taken away again. -/
theorem validUtf8_cons_iff {t : Bytes} {b : UInt8} (hb : b < 0x80) : ValidUtf8 (b :: t) ↔ ValidUtf8 t := by
  have hsplit := validUtf8_append_cons_iff (s := []) (t := t) hb
  simpa [ValidUtf8.nil] using hsplit

/-- Whether a text with a beginning of ASCII is in UTF-8 is decided by the rest. -/
theorem validUtf8_ascii_append_iff {s t : Bytes} (h : isAscii s = true) :
    ValidUtf8 (s ++ t) ↔ ValidUtf8 t := by
  induction s with
  | nil => rfl
  | cons b s ih =>
    rw [isAscii_cons] at h
    rw [List.cons_append, validUtf8_cons_iff h.1, ih h.2]

end json
