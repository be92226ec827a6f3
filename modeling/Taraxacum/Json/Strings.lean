import Taraxacum.Json.Decode

namespace json

@[simp] theorem isPlain_nil : isPlain [] = true := rfl

/-- Plain text is decided octet by octet. -/
@[simp] theorem isPlain_cons {b : UInt8} {s : Bytes} :
    isPlain (b :: s) = true ↔ isUnescaped b = true ∧ isPlain s = true := by
  simp [isPlain]

/-- Octets that stand for themselves are the text of the string they spell. -/
theorem Chars.of_plain {d : Bytes} (hplain : isPlain d = true) (r : Bytes) : Chars (d ++ quote :: r) d r := by
  induction d with
  | nil => exact .close
  | cons b d ih =>
    rw [isPlain_cons] at hplain
    exact .plain hplain.1 (ih hplain.2)

/-- Arbitrary octets spliced in before a quote. The string either closes within
    them or at that quote, and then stands for all of them only when each stands for
    itself, or escapes the quote and goes on behind it. -/
theorem Chars.splice {t w d r : Bytes} (h : Chars (t ++ quote :: w) d r) :
    (d.length ≤ t.length ∧ (d.length = t.length → isPlain t = true ∧ r = w)) ∨
      ∃ d', Chars w d' r := by
  generalize hs : t ++ quote :: w = s at h
  induction h generalizing t with
  | close =>
    left
    cases t with
    | nil => simpa using hs.symm
    | cons b t => simp
  | @plain b s d r hplain htail ih =>
    cases t with
    | nil =>
      obtain ⟨rfl, _⟩ : quote = b ∧ w = s := by simpa using hs
      exact absurd hplain (by decide)
    | cons c t =>
      obtain ⟨rfl, htext⟩ : c = b ∧ t ++ quote :: w = s := by simpa using hs
      rcases ih htext with ⟨hle, heq⟩ | hbehind
      · left
        refine ⟨Nat.succ_le_succ hle, fun hlength => ?_⟩
        obtain ⟨hall, hr⟩ := heq (Nat.succ.inj hlength)
        exact ⟨isPlain_cons.mpr ⟨hplain, hall⟩, hr⟩
      · exact .inr hbehind
  | @escape s u s' d r hescape htail ih =>
    cases t with
    | nil =>
      have hhead : quote = backslash := by simpa using congrArg List.head? hs
      exact absurd hhead (by decide)
    | cons c t =>
      obtain ⟨rfl, rfl⟩ : c = backslash ∧ t ++ quote :: w = s := by simpa using hs
      obtain ⟨p, hp, _, hle, _, hquote⟩ := escape?_spec hescape
      rcases List.append_eq_append_iff.mp hp with ⟨q, rfl, hq⟩ | ⟨q, rfl, rfl⟩
      · cases q with
        | nil =>
          rw [List.append_nil] at hle
          rcases ih (t := []) (by simpa using hq) with ⟨hle', _⟩ | hbehind
          · left
            simp only [List.length_append, List.length_cons, List.length_nil] at hle' ⊢
            exact ⟨by omega, fun hlength => by omega⟩
          · exact .inr hbehind
        | cons b q =>
          obtain ⟨rfl, rfl⟩ : quote = b ∧ w = q ++ s' := by simpa using hq
          rcases hquote with hp | hp
          · obtain ⟨rfl, rfl⟩ : t = [] ∧ q = [] := by
              cases t with
              | nil => simpa using hp
              | cons c t => simp at hp
            exact .inr ⟨d, htail⟩
          · simp at hp
      · rcases ih (t := q) rfl with ⟨hle', _⟩ | hbehind
        · left
          simp only [List.length_append, List.length_cons] at hle' ⊢
          exact ⟨by omega, fun hlength => by omega⟩
        · exact .inr hbehind

/-- No text begins with two strings. -/
theorem Chars.unique {s d d' r r' : Bytes} (h : Chars s d r) (h' : Chars s d' r') : d = d' ∧ r = r' := by
  rw [← string?_eq_some_iff] at h h'
  simpa using h.symm.trans h'

/-- Nothing is passed over in front of a token. -/
theorem Ws.eq_of_not_ws {b : UInt8} {s r : Bytes} (h : Ws (b :: s) r) (hb : isWs b = false) : r = b :: s := by
  cases h with
  | nil => rfl
  | cons hws _ => simp [hws] at hb

/-- White space that ends at `c` goes over any other first octet. -/
theorem Ws.of_cons {b c : UInt8} {s r : Bytes} (h : Ws (b :: s) (c :: r)) (hne : b ≠ c) : Ws s (c :: r) := by
  cases h with
  | nil => exact absurd rfl hne
  | cons _ htail => exact htail

section
variable {ν : Type} {num : Bytes → ν}

/-- A value that is a string begins with its quote. -/
theorem IsValue.of_string {s d r : Bytes} (h : IsValue num s (.string d) r) :
    ∃ t, s = quote :: t ∧ Chars t d r := by
  cases h with
  | string hchars => exact ⟨_, rfl, hchars⟩

/-- A value that is an object with members begins with its brace. -/
theorem IsValue.of_object {s r : Bytes} {m : Bytes × Value ν} {ms : List (Bytes × Value ν)}
    (h : IsValue num s (.object (m :: ms)) r) : ∃ t, s = lbrace :: t ∧ IsMembers num t (m :: ms) r := by
  cases h with
  | object hmembers => exact ⟨_, rfl, hmembers⟩

/-- A text that begins with a brace and a quote is an object with a first member. -/
theorem IsValue.of_lbrace_quote {s r : Bytes} {v : Value ν} (h : IsValue num (lbrace :: quote :: s) v r) :
    ∃ k t u, Chars s k t ∧ Ws t (colon :: u) := by
  generalize hs : lbrace :: quote :: s = text at h
  cases h with
  | null | isTrue | isFalse => cases hs
  | @number n _ hnumeral =>
    obtain ⟨b, n, rfl⟩ := List.exists_cons_of_ne_nil (ne_nil_of_isNumeral hnumeral)
    obtain rfl : lbrace = b := (List.cons.inj hs).1
    exact absurd (isNumeralByte_of_isNumeral hnumeral lbrace (List.mem_cons_self ..)) (by decide)
  | string | emptyArray | array => cases hs
  | emptyObject hws =>
    cases hs
    cases hws.eq_of_not_ws (by decide)
  | object hmembers =>
    cases hs
    cases hmembers with
    | last hbefore hname hcolon | cons hbefore hname hcolon =>
      cases hbefore.eq_of_not_ws (by decide)
      exact ⟨_, _, _, hname, hcolon⟩

/-- A string of a known length after whose octets a quote stands: either it is
    spelled by them, or it goes on behind that quote. -/
theorem IsValue.spliced {t w d s r : Bytes} (h : IsValue num s (.string d) r)
    (hws : Ws (quote :: (t ++ quote :: w)) s) (hlength : d.length = t.length) :
    (isPlain t = true ∧ r = w) ∨ ∃ d', Chars w d' r := by
  obtain ⟨u, rfl, hchars⟩ := h.of_string
  obtain ⟨_, rfl⟩ := List.cons.inj (hws.eq_of_not_ws (by decide))
  rcases hchars.splice with ⟨_, hplain⟩ | hbehind
  · exact .inl (hplain hlength)
  · exact .inr hbehind

/-- Where a text without escapes is put between quotes as it is, the string that is read there
    either is that text, which then has no octet to escape, or goes on past the quote that was to
    end it. -/
private theorem spliced_member {name t w d s₁ s₂ s₃ s₄ s₅ : Bytes}
    (hplain : isPlain name = true)
    (hbefore : Ws (space :: quote :: (name ++ quote :: colon :: quote :: (t ++ quote :: w))) (quote :: s₁))
    (hname : Chars s₁ name s₂) (hcolon : Ws s₂ (colon :: s₃)) (hvaluews : Ws s₃ s₄)
    (hvalue : IsValue num s₄ (.string d) s₅) (hlength : d.length = t.length) :
    (isPlain t = true ∧ s₅ = w) ∨ ∃ d', Chars w d' s₅ := by
  obtain ⟨_, rfl⟩ := List.cons.inj ((hbefore.of_cons (by decide)).eq_of_not_ws (by decide))
  obtain ⟨_, rfl⟩ := hname.unique (.of_plain hplain _)
  obtain ⟨_, rfl⟩ := List.cons.inj (hcolon.eq_of_not_ws (by decide))
  exact hvalue.spliced hvaluews hlength

/-- The same for the first member of an object, and what comes after it. -/
theorem IsMembers.spliced {name t w d r : Bytes} {ms : List (Bytes × Value ν)}
    (hplain : isPlain name = true)
    (h : IsMembers num (space :: quote :: (name ++ quote :: colon :: quote :: (t ++ quote :: w)))
      ((name, .string d) :: ms) r)
    (hlength : d.length = t.length) :
    ∃ u, ((isPlain t = true ∧ u = w) ∨ ∃ d', Chars w d' u) ∧
      ((ms = [] ∧ Ws u (rbrace :: r)) ∨ ∃ s, Ws u (comma :: s) ∧ IsMembers num s ms r) := by
  cases h with
  | last hbefore hname hcolon hvaluews hvalue hafter =>
    exact ⟨_, spliced_member hplain hbefore hname hcolon hvaluews hvalue hlength, .inl ⟨rfl, hafter⟩⟩
  | cons hbefore hname hcolon hvaluews hvalue hafter htail =>
    exact ⟨_, spliced_member hplain hbefore hname hcolon hvaluews hvalue hlength, .inr ⟨_, hafter, htail⟩⟩

end

end json
