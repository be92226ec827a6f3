import Taraxacum.Json.Text

namespace json

section
variable {ν : Type}

mutual

/-- Every number in the value satisfies `P`. -/
def Value.All (P : ν → Prop) : Value ν → Prop
  | .null | .bool _ | .string _ => True
  | .number n => P n
  | .array vs => allElements P vs
  | .object ms => allMembers P ms

def allElements (P : ν → Prop) : List (Value ν) → Prop
  | [] => True
  | v :: vs => v.All P ∧ allElements P vs

def allMembers (P : ν → Prop) : List (Bytes × Value ν) → Prop
  | [] => True
  | (_, v) :: ms => v.All P ∧ allMembers P ms

end

section
variable {P : ν → Prop} [DecidablePred P]

mutual

def Value.decidableAll : (v : Value ν) → Decidable (v.All P)
  | .null | .bool _ | .string _ => .isTrue trivial
  | .number n => inferInstanceAs (Decidable (P n))
  | .array vs => decidableAllElements vs
  | .object ms => decidableAllMembers ms

def decidableAllElements : (vs : List (Value ν)) → Decidable (allElements P vs)
  | [] => .isTrue trivial
  | v :: vs => @instDecidableAnd _ _ (Value.decidableAll v) (decidableAllElements vs)

def decidableAllMembers : (ms : List (Bytes × Value ν)) → Decidable (allMembers P ms)
  | [] => .isTrue trivial
  | (_, v) :: ms => @instDecidableAnd _ _ (Value.decidableAll v) (decidableAllMembers ms)

end

instance (v : Value ν) : Decidable (v.All P) := Value.decidableAll v

end

section
variable {num : Bytes → ν} {P : ν → Prop}

mutual

/-- What holds of every numeral holds of every number in the value of a text. -/
theorem IsValue.all (hP : ∀ n, isNumeral n = true → P (num n)) {s r : Bytes} {v : Value ν} :
    IsValue num s v r → v.All P
  | .null | .isTrue | .isFalse | .string _ | .emptyArray _ | .emptyObject _ => trivial
  | .number hnumeral => hP _ hnumeral
  | .array helements => helements.all hP
  | .object hmembers => hmembers.all hP

/-- What holds of every number that a numeral denotes holds of the elements of an array. -/
theorem IsElements.all (hP : ∀ n, isNumeral n = true → P (num n)) {s r : Bytes} {vs : List (Value ν)} :
    IsElements num s vs r → allElements P vs
  | .last _ hvalue _ => ⟨hvalue.all hP, trivial⟩
  | .cons _ hvalue _ htail => ⟨hvalue.all hP, htail.all hP⟩

theorem IsMembers.all (hP : ∀ n, isNumeral n = true → P (num n)) {s r : Bytes}
    {ms : List (Bytes × Value ν)} : IsMembers num s ms r → allMembers P ms
  | .last _ _ _ _ hvalue _ => ⟨hvalue.all hP, trivial⟩
  | .cons _ _ _ _ hvalue _ htail => ⟨hvalue.all hP, htail.all hP⟩

end

/-- What holds of every number that a numeral denotes holds of all numbers in what a text denotes.
    -/
theorem Denotes.all {s : Bytes} {v : Value ν} (h : Denotes num s v)
    (hP : ∀ n, isNumeral n = true → P (num n)) : v.All P := by
  obtain ⟨_, _, _, hvalue, _⟩ := h
  exact hvalue.all hP

end

def hexDigit (n : Nat) : UInt8 := UInt8.ofNat (if n < 10 then 0x30 + n else 0x37 + n)

/-- An octet as a writer puts it between quotes. -/
def escapeOctet (b : UInt8) : Bytes :=
  if isUnescaped b then [b]
  else if b = quote ∨ b = backslash then [backslash, b]
  else lit "\\u00" ++ [hexDigit (b.toNat / 16), hexDigit (b.toNat % 16)]

def encodeString (s : Bytes) : Bytes := quote :: (s.flatMap escapeOctet ++ [quote])

mutual

/-- The encoder, over the way it writes numbers. -/
def encode (numeral : ν → Bytes) : Value ν → Bytes
  | .null => lit "null"
  | .bool true => lit "true"
  | .bool false => lit "false"
  | .number n => numeral n
  | .string s => encodeString s
  | .array [] => lit "[]"
  | .array (v :: vs) => lbracket :: (encode numeral v ++ encodeElements numeral vs)
  | .object [] => lit "\x7b\x7d"
  | .object ((k, v) :: ms) =>
    lbrace :: (encodeString k ++ colon :: (encode numeral v ++ encodeMembers numeral ms))

/-- The elements after the first and the closing bracket. -/
def encodeElements (numeral : ν → Bytes) : List (Value ν) → Bytes
  | [] => [rbracket]
  | v :: vs => comma :: (encode numeral v ++ encodeElements numeral vs)

def encodeMembers (numeral : ν → Bytes) : List (Bytes × Value ν) → Bytes
  | [] => [rbrace]
  | (k, v) :: ms => comma :: (encodeString k ++ colon :: (encode numeral v ++ encodeMembers numeral ms))

end

/-- Each of the sixteen digits is read back. -/
theorem hexDigit?_hexDigit : ∀ n < 16, hexDigit? (hexDigit n) = some n := by decide

/-- A control character is one octet in UTF-8. -/
private theorem encodeScalar_control : ∀ n < 0x20, encodeScalar n = [UInt8.ofNat n] := by decide

/-- A control character survives its `\u` escape. -/
theorem unicodeEscape?_control {b : UInt8} (hb : b < 0x20) (s : Bytes) :
    unicodeEscape? (0x30 :: 0x30 :: hexDigit (b.toNat / 16) :: hexDigit (b.toNat % 16) :: s) =
      some ([b], s) := by
  have hlt : b.toNat < 0x20 := hb
  have hhigh := hexDigit?_hexDigit (b.toNat / 16) (by omega)
  have hlow := hexDigit?_hexDigit (b.toNat % 16) (by omega)
  have hunit : codeUnit? (0x30 :: 0x30 :: hexDigit (b.toNat / 16) :: hexDigit (b.toNat % 16) :: s) =
      some (b.toNat, s) := by
    have hzero : hexDigit? 0x30 = some 0 := by decide
    simp only [codeUnit?, hhigh, hlow, hzero, Option.bind_eq_bind, Option.bind_some, Option.pure_def,
      Option.some.injEq, Prod.mk.injEq, and_true]
    omega
  rw [unicodeEscape?, hunit]
  simp only [show b.toNat < 0xD800 by omega, true_or, if_true, encodeScalar_control _ hlt,
    UInt8.ofNat_toNat]

/-- An octet that is written with its escape, if it needs one, is read as itself. -/
theorem chars_escapeOctet (b : UInt8) {s d r : Bytes} (h : Chars s d r) :
    Chars (escapeOctet b ++ s) (b :: d) r := by
  unfold escapeOctet
  split_ifs with hplain hspecial
  · exact .plain hplain h
  · refine .escape (u := [b]) ?_ h
    rcases hspecial with rfl | rfl <;> rfl
  · refine .escape (u := [b]) ?_ h
    have hb : b < 0x20 := by
      simp only [isUnescaped, Bool.and_eq_true, decide_eq_true_eq, bne_iff_ne, not_and_or, not_not] at hplain
      rcases hplain with (hlt | hquote) | hbackslash
      · exact UInt8.not_le.mp hlt
      · exact absurd (Or.inl hquote) hspecial
      · exact absurd (Or.inr hbackslash) hspecial
    exact unicodeEscape?_control hb s

/-- A string that is written is read back, of any octets. -/
theorem chars_encodeString (d r : Bytes) : Chars (d.flatMap escapeOctet ++ quote :: r) d r := by
  induction d with
  | nil => exact .close
  | cons b d ih =>
    rw [List.flatMap_cons, List.append_assoc]
    exact chars_escapeOctet b ih

/-- The numerals the encoder writes are numerals, and are read back as what they stand for. -/
def Reads (num : Bytes → ν) (numeral : ν → Bytes) (n : ν) : Prop :=
  isNumeral (numeral n) = true ∧ num (numeral n) = n

section
variable {num : Bytes → ν} {numeral : ν → Bytes}

mutual

/-- A value that is written is read back, with whatever follows it, if the numbers in it are. -/
theorem isValue_encode :
    ∀ (v : Value ν), v.All (Reads num numeral) → ∀ r, IsValue num (encode numeral v ++ r) v r
  | .null, _, r => .null
  | .bool true, _, r => .isTrue
  | .bool false, _, r => .isFalse
  | .number n, h, r => by
    rw [Value.All] at h
    have hvalue : IsValue num (numeral n ++ r) (.number (num (numeral n))) r := .number h.1
    rwa [h.2] at hvalue
  | .string s, _, r => by
    rw [encode, encodeString, List.cons_append, List.append_assoc]
    exact .string (chars_encodeString s r)
  | .array [], _, r => .emptyArray .nil
  | .array (v :: vs), h, r => by
    rw [Value.All] at h
    rw [encode, List.cons_append, List.append_assoc]
    exact .array (isElements_encode vs h.2 (isValue_encode v h.1 _))
  | .object [], _, r => .emptyObject .nil
  | .object ((k, v) :: ms), h, r => by
    rw [Value.All] at h
    simp only [encode, encodeString, List.cons_append, List.append_assoc, List.nil_append]
    exact .object (isMembers_encode ms h.2 (chars_encodeString k _) (isValue_encode v h.1 _))

/-- Elements that are written are read back, after a first one. -/
theorem isElements_encode : ∀ (vs : List (Value ν)), allElements (Reads num numeral) vs →
    ∀ {s r : Bytes} {v : Value ν}, IsValue num s v (encodeElements numeral vs ++ r) →
      IsElements num s (v :: vs) r
  | [], _, _, _, _, hvalue => .last .nil hvalue .nil
  | w :: vs, h, _, r, _, hvalue => by
    rw [encodeElements, List.cons_append, List.append_assoc] at hvalue
    exact .cons .nil hvalue .nil (isElements_encode vs h.2 (isValue_encode w h.1 _))

/-- Members that are written are read back, after the name and the value of a first one. -/
theorem isMembers_encode : ∀ (ms : List (Bytes × Value ν)), allMembers (Reads num numeral) ms →
    ∀ {s t r k : Bytes} {v : Value ν}, Chars s k (colon :: t) →
      IsValue num t v (encodeMembers numeral ms ++ r) → IsMembers num (quote :: s) ((k, v) :: ms) r
  | [], _, _, _, _, _, _, hname, hvalue => .last .nil hname .nil .nil hvalue .nil
  | (l, w) :: ms, h, _, _, r, _, _, hname, hvalue => by
    simp only [encodeMembers, encodeString, List.cons_append, List.append_assoc, List.nil_append] at hvalue
    exact .cons .nil hname .nil .nil hvalue .nil
      (isMembers_encode ms h.2 (chars_encodeString l _) (isValue_encode w h.1 _))

end

/-- What the encoder writes denotes the value it was given. -/
theorem denotes_encode {v : Value ν} (h : v.All (Reads num numeral)) : Denotes num (encode numeral v) v := by
  have hvalue := isValue_encode v h []
  rw [List.append_nil] at hvalue
  exact ⟨_, _, .nil, hvalue, .nil⟩

end

end

end json
