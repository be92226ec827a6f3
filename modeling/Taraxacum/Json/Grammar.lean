import Mathlib.Data.List.Basic

namespace json

/-- Texts and strings are sequences of octets. -/
abbrev Bytes := List UInt8

/-- The octets of an ASCII literal. -/
def lit (s : String) : Bytes := s.toList.map fun c => UInt8.ofNat c.toNat

/-- JSON values over a type of numbers. Members keep their order and repetitions. -/
inductive Value (ν : Type) where
  | null
  | bool (b : Bool)
  | number (n : ν)
  | string (s : Bytes)
  | array (elements : List (Value ν))
  | object (members : List (Bytes × Value ν))

abbrev quote : UInt8 := 0x22
abbrev backslash : UInt8 := 0x5C
abbrev lbracket : UInt8 := 0x5B
abbrev rbracket : UInt8 := 0x5D
abbrev lbrace : UInt8 := 0x7B
abbrev rbrace : UInt8 := 0x7D
abbrev comma : UInt8 := 0x2C
abbrev colon : UInt8 := 0x3A
abbrev space : UInt8 := 0x20

def isWs (b : UInt8) : Bool := b == 0x20 || b == 0x09 || b == 0x0A || b == 0x0D

/-- An octet that stands for itself in a string. Octets from `0x80` on are taken
    as they are: whether they form UTF-8 is a question of its own (`ValidUtf8`). -/
def isUnescaped (b : UInt8) : Bool := 0x20 ≤ b && b != quote && b != backslash

/-- A string that can stand between quotes as it is. -/
def isPlain (s : Bytes) : Bool := s.all isUnescaped

def isDigit (b : UInt8) : Bool := 0x30 ≤ b && b ≤ 0x39

/-- The octets numerals are made of: digits, signs, the point and the exponent mark. -/
def isNumeralByte (b : UInt8) : Bool :=
  isDigit b || b == 0x2D || b == 0x2B || b == 0x2E || b == 0x65 || b == 0x45

def isDigits (s : Bytes) : Bool := !s.isEmpty && s.all isDigit

/-- `exp = ("e" / "E") ["-" / "+"] 1*DIGIT`, or nothing. -/
def isExponent : Bytes → Bool
  | [] => true
  | e :: s =>
    (e == 0x65 || e == 0x45) &&
      match s with
      | sign :: t => if sign == 0x2D || sign == 0x2B then isDigits t else isDigits s
      | [] => false

/-- `frac = "." 1*DIGIT`, or nothing, and the exponent after it. -/
def isFraction : Bytes → Bool
  | 0x2E :: s => isDigits (s.takeWhile isDigit) && isExponent (s.dropWhile isDigit)
  | s => isExponent s

/-- `int = "0" / (DIGIT1-9 *DIGIT)`, and the fraction and exponent after it. -/
def isUnsigned : Bytes → Bool
  | [] => false
  | d :: s =>
    if d == 0x30 then isFraction s
    else isDigit d && isFraction (s.dropWhile isDigit)

/-- `number = ["-"] int [frac] [exp]`. -/
def isNumeral : Bytes → Bool
  | 0x2D :: s => isUnsigned s
  | s => isUnsigned s

/-- The octet a two-character escape stands for. -/
def shortEscape? (e : UInt8) : Option UInt8 :=
  [(quote, quote), (backslash, backslash), (0x2F, 0x2F), (0x62, 0x08), (0x66, 0x0C), (0x6E, 0x0A),
    (0x72, 0x0D), (0x74, 0x09)].lookup e

def hexDigit? (b : UInt8) : Option Nat :=
  if 0x30 ≤ b ∧ b ≤ 0x39 then some (b.toNat - 0x30)
  else if 0x41 ≤ b ∧ b ≤ 0x46 then some (b.toNat - 0x41 + 10)
  else if 0x61 ≤ b ∧ b ≤ 0x66 then some (b.toNat - 0x61 + 10)
  else none

/-- The code unit four hexadecimal digits stand for, and what follows them. -/
def codeUnit? : Bytes → Option (Nat × Bytes)
  | a :: b :: c :: d :: s => do
    let a ← hexDigit? a
    let b ← hexDigit? b
    let c ← hexDigit? c
    let d ← hexDigit? d
    return (((a * 16 + b) * 16 + c) * 16 + d, s)
  | _ => none

def encodeScalar (n : Nat) : Bytes := String.utf8EncodeChar (Char.ofNat n)

/-- The low half of a surrogate pair, and what follows it. -/
def lowSurrogate? : Bytes → Option (Nat × Bytes)
  | 0x5C :: 0x75 :: s =>
    match codeUnit? s with
    | some (u, t) => if 0xDC00 ≤ u ∧ u ≤ 0xDFFF then some (u, t) else none
    | none => none
  | _ => none

/-- A `\u` escape after its first two characters: a code unit, or a surrogate pair. -/
def unicodeEscape? (s : Bytes) : Option (Bytes × Bytes) :=
  match codeUnit? s with
  | none => none
  | some (u, t) =>
    if u < 0xD800 ∨ 0xDFFF < u then some (encodeScalar u, t)
    else if u < 0xDC00 then
      (lowSurrogate? t).map fun (low, r) =>
        (encodeScalar (0x10000 + (u - 0xD800) * 0x400 + (low - 0xDC00)), r)
    else none

/-- An escape after its backslash: the octets it stands for, and what follows it. -/
def escape? : Bytes → Option (Bytes × Bytes)
  | [] => none
  | e :: s =>
    if e = 0x75 then unicodeEscape? s
    else (shortEscape? e).map fun b => ([b], s)

/-- `Ws s r`: some whitespace of `s` passed over leaves `r`. -/
inductive Ws : Bytes → Bytes → Prop where
  | nil {r : Bytes} : Ws r r
  | cons {b : UInt8} {s r : Bytes} (hws : isWs b = true) (htail : Ws s r) : Ws (b :: s) r

/-- `Chars s d r`: after its opening quote, `s` is a string that stands for `d`,
    closed just before `r`. -/
inductive Chars : Bytes → Bytes → Bytes → Prop where
  | close {r : Bytes} : Chars (quote :: r) [] r
  | plain {b : UInt8} {s d r : Bytes} (hplain : isUnescaped b = true) (htail : Chars s d r) :
      Chars (b :: s) (b :: d) r
  | escape {s u t d r : Bytes} (hescape : escape? s = some (u, t)) (htail : Chars t d r) :
      Chars (backslash :: s) (u ++ d) r

section
variable {ν : Type} (num : Bytes → ν)

/- The grammar of RFC 8259 over what is left of the text, under a reading `num`
of the numerals. -/
mutual

/-- `IsValue s v r`: `s` begins with a text of `v`, and `r` follows it. -/
inductive IsValue : Bytes → Value ν → Bytes → Prop where
  | null {r : Bytes} : IsValue (lit "null" ++ r) .null r
  | isTrue {r : Bytes} : IsValue (lit "true" ++ r) (.bool true) r
  | isFalse {r : Bytes} : IsValue (lit "false" ++ r) (.bool false) r
  | number {n r : Bytes} (hnumeral : isNumeral n = true) : IsValue (n ++ r) (.number (num n)) r
  | string {s d r : Bytes} (hchars : Chars s d r) : IsValue (quote :: s) (.string d) r
  | emptyArray {s r : Bytes} (hws : Ws s (rbracket :: r)) : IsValue (lbracket :: s) (.array []) r
  | array {s r : Bytes} {vs : List (Value ν)} (helements : IsElements s vs r) :
      IsValue (lbracket :: s) (.array vs) r
  | emptyObject {s r : Bytes} (hws : Ws s (rbrace :: r)) : IsValue (lbrace :: s) (.object []) r
  | object {s r : Bytes} {ms : List (Bytes × Value ν)} (hmembers : IsMembers s ms r) :
      IsValue (lbrace :: s) (.object ms) r

/-- The elements of an array and its closing bracket. -/
inductive IsElements : Bytes → List (Value ν) → Bytes → Prop where
  | last {s s₁ s₂ r : Bytes} {v : Value ν} (hbefore : Ws s s₁) (hvalue : IsValue s₁ v s₂)
      (hafter : Ws s₂ (rbracket :: r)) : IsElements s [v] r
  | cons {s s₁ s₂ s₃ r : Bytes} {v : Value ν} {vs : List (Value ν)} (hbefore : Ws s s₁)
      (hvalue : IsValue s₁ v s₂) (hafter : Ws s₂ (comma :: s₃)) (htail : IsElements s₃ vs r) :
      IsElements s (v :: vs) r

/-- The members of an object and its closing brace. -/
inductive IsMembers : Bytes → List (Bytes × Value ν) → Bytes → Prop where
  | last {s s₁ s₂ s₃ s₄ s₅ r k : Bytes} {v : Value ν} (hbefore : Ws s (quote :: s₁))
      (hname : Chars s₁ k s₂) (hcolon : Ws s₂ (colon :: s₃)) (hvaluews : Ws s₃ s₄)
      (hvalue : IsValue s₄ v s₅) (hafter : Ws s₅ (rbrace :: r)) : IsMembers s [(k, v)] r
  | cons {s s₁ s₂ s₃ s₄ s₅ s₆ r k : Bytes} {v : Value ν} {ms : List (Bytes × Value ν)}
      (hbefore : Ws s (quote :: s₁)) (hname : Chars s₁ k s₂) (hcolon : Ws s₂ (colon :: s₃))
      (hvaluews : Ws s₃ s₄) (hvalue : IsValue s₄ v s₅) (hafter : Ws s₅ (comma :: s₆))
      (htail : IsMembers s₆ ms r) : IsMembers s ((k, v) :: ms) r

end

/-- `s` is one JSON text, whitespace around it allowed, and denotes `v`. -/
def Denotes (s : Bytes) (v : Value ν) : Prop :=
  ∃ s₁ s₂, Ws s s₁ ∧ IsValue num s₁ v s₂ ∧ Ws s₂ []

end

end json
