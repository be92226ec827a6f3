import Taraxacum.Json.Grammar

namespace json

def skipWs (s : Bytes) : Bytes := s.dropWhile isWs

def expect? (l s : Bytes) : Option Bytes :=
  if l.isPrefixOf s then some (s.drop l.length) else none

def chars : Nat → Bytes → Option (Bytes × Bytes)
  | 0, _ => none
  | _ + 1, [] => none
  | fuel + 1, b :: s =>
    if b = quote then some ([], s)
    else if b = backslash then
      match escape? s with
      | some (u, t) => (chars fuel t).map fun (d, r) => (u ++ d, r)
      | none => none
    else if isUnescaped b then (chars fuel s).map fun (d, r) => (b :: d, r)
    else none

/-- A string after its opening quote. Each character takes an octet, so the
    length is fuel enough. -/
def string? (s : Bytes) : Option (Bytes × Bytes) := chars s.length s

section
variable {ν : Type} (num : Bytes → ν)

mutual

def value : Nat → Bytes → Option (Value ν × Bytes)
  | 0, _ => none
  | _ + 1, [] => none
  | fuel + 1, b :: s =>
    if b = quote then (string? s).map fun (d, r) => (.string d, r)
    else if b = lbracket then
      match expect? [rbracket] (skipWs s) with
      | some r => some (.array [], r)
      | none => (elements fuel s).map fun (vs, r) => (.array vs, r)
    else if b = lbrace then
      match expect? [rbrace] (skipWs s) with
      | some r => some (.object [], r)
      | none => (members fuel s).map fun (ms, r) => (.object ms, r)
    else if isNumeralByte b then
      let n := (b :: s).takeWhile isNumeralByte
      if isNumeral n then some (.number (num n), (b :: s).dropWhile isNumeralByte) else none
    else if b = 0x6E then (expect? (lit "null") (b :: s)).map fun r => (.null, r)
    else if b = 0x74 then (expect? (lit "true") (b :: s)).map fun r => (.bool true, r)
    else (expect? (lit "false") (b :: s)).map fun r => (.bool false, r)

def elements : Nat → Bytes → Option (List (Value ν) × Bytes)
  | 0, _ => none
  | fuel + 1, s =>
    match value fuel (skipWs s) with
    | none => none
    | some (v, t) =>
      match expect? [rbracket] (skipWs t) with
      | some r => some ([v], r)
      | none =>
        match expect? [comma] (skipWs t) with
        | some t => (elements fuel t).map fun (vs, r) => (v :: vs, r)
        | none => none

def members : Nat → Bytes → Option (List (Bytes × Value ν) × Bytes)
  | 0, _ => none
  | fuel + 1, s =>
    match (expect? [quote] (skipWs s)).bind string? with
    | none => none
    | some (k, t) =>
      match (expect? [colon] (skipWs t)).bind fun t => value fuel (skipWs t) with
      | none => none
      | some (v, t) =>
        match expect? [rbrace] (skipWs t) with
        | some r => some ([(k, v)], r)
        | none =>
          match expect? [comma] (skipWs t) with
          | some t => (members fuel t).map fun (ms, r) => ((k, v) :: ms, r)
          | none => none

end

/-- The decoder: the value of one whole text, if it is one. -/
def parse (s : Bytes) : Option (Value ν) :=
  match value num (2 * s.length + 1) (skipWs s) with
  | some (v, r) => if skipWs r = [] then some v else none
  | none => none

end

/-- A word that is expected is found exactly at the beginning. -/
theorem expect?_eq_some_iff {l s r : Bytes} : expect? l s = some r ↔ s = l ++ r := by
  unfold expect?
  constructor
  · intro h
    split at h
    · rename_i hprefix
      obtain ⟨t, rfl⟩ := List.isPrefixOf_iff_prefix.mp hprefix
      simpa using h
    · cases h
  · rintro rfl
    simp

@[simp] theorem expect?_append (l r : Bytes) : expect? l (l ++ r) = some r :=
  expect?_eq_some_iff.mpr rfl

/-- Another first octet is not the one expected. -/
theorem expect?_cons_of_ne {b c : UInt8} (hne : c ≠ b) (s : Bytes) : expect? [b] (c :: s) = none := by
  rw [Option.eq_none_iff_forall_ne_some]
  intro r h
  rw [expect?_eq_some_iff] at h
  exact hne (by simpa using congrArg List.head? h)

/-- What is skipped is white space of the grammar. -/
theorem ws_skipWs (s : Bytes) : Ws s (skipWs s) := by
  induction s with
  | nil => exact .nil
  | cons b s ih =>
    by_cases hws : isWs b = true
    · rw [skipWs, List.dropWhile_cons_of_pos hws]
      exact .cons hws ih
    · rw [skipWs, List.dropWhile_cons_of_neg hws]
      exact .nil

/-- White space does not change where skipping it ends. -/
theorem Ws.skipWs_eq {s r : Bytes} (h : Ws s r) : skipWs s = skipWs r := by
  induction h with
  | nil => rfl
  | cons hws _ ih => rw [skipWs, List.dropWhile_cons_of_pos hws, ← ih, skipWs]

/-- An octet that is found after white space stands after white space of the grammar. -/
theorem ws_of_expect? {s r : Bytes} {b : UInt8} (h : expect? [b] (skipWs s) = some r) :
    Ws s (b :: r) := by
  have hskip := expect?_eq_some_iff.mp h
  have hws := ws_skipWs s
  rwa [hskip] at hws

/-- Whitespace before anything but whitespace is passed over whole. -/
theorem Ws.skipWs_cons {s r : Bytes} {b : UInt8} (h : Ws s (b :: r)) (hb : isWs b = false) :
    skipWs s = b :: r := by
  rw [h.skipWs_eq, skipWs, List.dropWhile_cons_of_neg (by simp [hb])]

/-- Skipping white space makes a text no longer. -/
theorem Ws.length_le {s r : Bytes} (h : Ws s r) : r.length ≤ s.length := by
  induction h with
  | nil => exact Nat.le_refl _
  | cons _ _ ih => exact Nat.le_succ_of_le ih

/-- Four hexadecimal digits are four octets, none of them a quote or a NUL. -/
theorem codeUnit?_spec {s t : Bytes} {u : Nat} (h : codeUnit? s = some (u, t)) :
    ∃ p, s = p ++ t ∧ p.length = 4 ∧ ∀ b ∈ p, b ≠ quote ∧ b ≠ 0 := by
  unfold codeUnit? at h
  split at h
  · rename_i a b c d s
    simp only [Option.bind_eq_bind, Option.bind_eq_some_iff, Option.pure_def, Option.some.injEq,
      Prod.mk.injEq] at h
    obtain ⟨_, ha, _, hb, _, hc, _, hd, _, rfl⟩ := h
    have hdigit {b : UInt8} {n : Nat} (hb : hexDigit? b = some n) : b ≠ quote ∧ b ≠ 0 := by
      constructor <;> rintro rfl <;> cases hb
    refine ⟨[a, b, c, d], rfl, rfl, ?_⟩
    simp only [List.forall_mem_cons]
    exact ⟨hdigit ha, hdigit hb, hdigit hc, hdigit hd, nofun⟩
  · cases h

/-- The second half of a surrogate pair is six octets long, and none of them ends the string. -/
theorem lowSurrogate?_spec {s t : Bytes} {u : Nat} (h : lowSurrogate? s = some (u, t)) :
    ∃ p, s = p ++ t ∧ p.length = 6 ∧ ∀ b ∈ p, b ≠ quote ∧ b ≠ 0 := by
  unfold lowSurrogate? at h
  split at h
  · rename_i s
    split at h
    · rename_i unit rest hunit
      split at h
      · obtain ⟨rfl, rfl⟩ : unit = u ∧ rest = t := by simpa using h
        obtain ⟨p, rfl, hlength, hp⟩ := codeUnit?_spec hunit
        refine ⟨0x5C :: 0x75 :: p, rfl, by simp [hlength], ?_⟩
        rw [List.forall_mem_cons, List.forall_mem_cons]
        exact ⟨by decide, by decide, hp⟩
      · cases h
    · cases h
  · cases h

/-- A code point has at most four octets in UTF-8. -/
theorem encodeScalar_length_le (n : Nat) : (encodeScalar n).length ≤ 4 := by
  simpa [encodeScalar] using Char.utf8Size_le_four _

/-- A `\u` escape takes more octets than it stands for, none of them a quote or a NUL. -/
theorem unicodeEscape?_spec {s u t : Bytes} (h : unicodeEscape? s = some (u, t)) :
    ∃ p, s = p ++ t ∧ u.length ≤ p.length ∧ ∀ b ∈ p, b ≠ quote ∧ b ≠ 0 := by
  unfold unicodeEscape? at h
  split at h
  · cases h
  · rename_i unit rest hunit
    obtain ⟨p, rfl, hlength, hp⟩ := codeUnit?_spec hunit
    split at h
    · obtain ⟨rfl, rfl⟩ : encodeScalar unit = u ∧ rest = t := by simpa using h
      refine ⟨p, rfl, ?_, hp⟩
      rw [hlength]
      exact encodeScalar_length_le unit
    · split at h
      · simp only [Option.map_eq_some_iff, Prod.exists, Prod.mk.injEq] at h
        obtain ⟨low, r, hlow, rfl, rfl⟩ := h
        obtain ⟨q, rfl, _, hq⟩ := lowSurrogate?_spec hlow
        have hscalar := encodeScalar_length_le (0x10000 + (unit - 0xD800) * 0x400 + (low - 0xDC00))
        refine ⟨p ++ q, by simp, ?_, List.forall_mem_append.mpr ⟨hp, hq⟩⟩
        simp only [List.length_append]
        omega
      · cases h

/-- An escape takes at least as many octets as it stands for, never a NUL, and a
    quote only when it escapes one. -/
theorem escape?_spec {s u t : Bytes} (h : escape? s = some (u, t)) :
    ∃ p, s = p ++ t ∧ p ≠ [] ∧ u.length ≤ p.length ∧ 0 ∉ p ∧ (p = [quote] ∨ quote ∉ p) := by
  cases s with
  | nil => cases h
  | cons e s =>
    rw [escape?] at h
    split at h
    · rename_i hu
      subst hu
      obtain ⟨p, rfl, hle, hp⟩ := unicodeEscape?_spec h
      have hzero : 0 ∉ 0x75 :: p := by
        apply List.not_mem_cons_of_ne_of_not_mem (by decide)
        exact fun hmem => (hp 0 hmem).2 rfl
      have hquote : quote ∉ 0x75 :: p := by
        apply List.not_mem_cons_of_ne_of_not_mem (by decide)
        exact fun hmem => (hp quote hmem).1 rfl
      exact ⟨0x75 :: p, rfl, by simp, Nat.le_succ_of_le hle, hzero, .inr hquote⟩
    · simp only [Option.map_eq_some_iff, Prod.mk.injEq] at h
      obtain ⟨b, hshort, rfl, rfl⟩ := h
      have hzero : e ≠ 0 := by
        rintro rfl
        cases hshort
      refine ⟨[e], rfl, by simp, by simp, by simpa using hzero.symm, ?_⟩
      by_cases he : e = quote
      · exact .inl (by rw [he])
      · exact .inr (by simpa using Ne.symm he)

/-- An escape is at least one octet long, which is what the fuel counts on. -/
theorem escape?_length_lt {s u t : Bytes} (h : escape? s = some (u, t)) : t.length < s.length := by
  obtain ⟨p, rfl, hne, _, _, _⟩ := escape?_spec h
  have hpos := List.length_pos_iff.mpr hne
  simp only [List.length_append]
  omega

/-- The characters that the parser reads are a string of the grammar, however much fuel it had. -/
theorem chars_sound {fuel : Nat} {s d r : Bytes} (h : chars fuel s = some (d, r)) : Chars s d r := by
  induction fuel generalizing s d with
  | zero => cases h
  | succ fuel ih =>
    cases s with
    | nil => cases h
    | cons b s =>
      rw [chars] at h
      split at h
      · rename_i hb
        obtain ⟨rfl, rfl⟩ : [] = d ∧ s = r := by simpa using h
        rw [hb]
        exact .close
      · split at h
        · rename_i hb
          subst hb
          split at h
          · rename_i hescape
            simp only [Option.map_eq_some_iff, Prod.exists, Prod.mk.injEq] at h
            obtain ⟨d, r, htail, rfl, rfl⟩ := h
            exact .escape hescape (ih htail)
          · cases h
        · split at h
          · rename_i hplain
            simp only [Option.map_eq_some_iff, Prod.exists, Prod.mk.injEq] at h
            obtain ⟨d, r, htail, rfl, rfl⟩ := h
            exact .plain hplain (ih htail)
          · cases h

/-- A character that needs no escape neither ends a string nor begins an escape. -/
theorem ne_of_isUnescaped {b : UInt8} (h : isUnescaped b = true) : b ≠ quote ∧ b ≠ backslash := by
  simp only [isUnescaped, Bool.and_eq_true, bne_iff_ne, ne_eq] at h
  exact ⟨h.1.2, h.2⟩

/-- Every string of the grammar is read, if there is fuel for each of its octets. -/
theorem chars_complete {s d r : Bytes} (h : Chars s d r) {fuel : Nat} (hfuel : s.length ≤ fuel) :
    chars fuel s = some (d, r) := by
  induction h generalizing fuel with
  | close =>
    cases fuel with
    | zero => simp at hfuel
    | succ fuel => simp [chars]
  | plain hplain _ ih =>
    cases fuel with
    | zero => simp at hfuel
    | succ fuel =>
      obtain ⟨hquote, hbackslash⟩ := ne_of_isUnescaped hplain
      rw [chars, if_neg hquote, if_neg hbackslash, if_pos hplain, ih (by simpa using hfuel)]
      rfl
  | escape hescape _ ih =>
    cases fuel with
    | zero => simp at hfuel
    | succ fuel =>
      have hlength := escape?_length_lt hescape
      simp only [List.length_cons] at hfuel
      rw [chars, if_neg (by decide), if_pos rfl, hescape]
      simp only
      rw [ih (by omega)]
      rfl

/-- The parser of strings is the grammar's. -/
theorem string?_eq_some_iff {s d r : Bytes} : string? s = some (d, r) ↔ Chars s d r :=
  ⟨chars_sound, fun h => chars_complete h (Nat.le_refl _)⟩

/-- A string takes its closing quote at least. -/
theorem Chars.length_lt {s d r : Bytes} (h : Chars s d r) : r.length < s.length := by
  induction h with
  | close => simp
  | plain _ _ ih => exact Nat.lt_succ_of_lt ih
  | escape hescape _ ih => exact Nat.lt_succ_of_lt (Nat.lt_trans ih (escape?_length_lt hescape))

end json
