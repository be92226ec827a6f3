import Taraxacum.Json.Strings

namespace json

section
variable {ν : Type} {num : Bytes → ν}

/-- A text of the grammar. -/
def WellFormed (num : Bytes → ν) (s : Bytes) : Prop := ∃ v, Denotes num s v

/-- A text of an object that has a member called `name`. -/
def IsObjectWith (num : Bytes → ν) (s name : Bytes) : Prop :=
  ∃ members, Denotes num s (.object members) ∧ (members.lookup name).isSome = true

/-- The parser finds every JSON text, so where it finds none there is none. -/
theorem not_wellFormed {s : Bytes} (h : parse num s = none) : ¬ WellFormed num s := by
  rintro ⟨v, hv⟩
  rw [parse_eq_some_iff.mpr hv] at h
  cases h

/-- An object with a given member is a JSON text. -/
theorem IsObjectWith.wellFormed {s name : Bytes} (h : IsObjectWith num s name) : WellFormed num s := by
  obtain ⟨members, hdenotes, _⟩ := h
  exact ⟨_, hdenotes⟩

/-- An object that is read from its first octet on is what the whole text denotes. -/
theorem Denotes.object {s : Bytes} {members : List (Bytes × Value ν)} (h : IsMembers num s members []) :
    Denotes num (lbrace :: s) (.object members) :=
  ⟨_, [], .nil, .object h, .nil⟩

/-- A string after its opening quote, spelled by octets that stand for themselves. -/
theorem IsValue.plainString {d : Bytes} (hplain : isPlain d = true) (r : Bytes) :
    IsValue num (quote :: (d ++ quote :: r)) (.string d) r :=
  .string (.of_plain hplain r)

/-- What is passed over between `s` and `r` has no NUL. -/
def NulFreeBefore (s r : Bytes) : Prop := 0 ∈ s → 0 ∈ r

/-- One octet more before what is known to have no NUL. -/
theorem NulFreeBefore.cons {s r : Bytes} {b : UInt8} (h : NulFreeBefore s r) (hb : b ≠ 0) :
    NulFreeBefore (b :: s) r := by
  intro hmem
  exact h ((List.mem_cons.mp hmem).resolve_left (Ne.symm hb))

theorem NulFreeBefore.of_cons {r : Bytes} {b : UInt8} (hb : b ≠ 0) : NulFreeBefore (b :: r) r := by
  intro hmem
  exact (List.mem_cons.mp hmem).resolve_left (Ne.symm hb)

/-- Octets without NUL may stand before anything. -/
theorem NulFreeBefore.of_append {p r : Bytes} (hp : 0 ∉ p) : NulFreeBefore (p ++ r) r :=
  fun hmem => (List.mem_append.mp hmem).resolve_left hp

/-- White space has no NUL. -/
theorem Ws.nulFree {s r : Bytes} (h : Ws s r) : NulFreeBefore s r := by
  induction h with
  | nil => exact id
  | cons hws _ ih =>
    apply ih.cons
    rintro rfl
    revert hws
    decide

/-- The characters of a string are written without NUL: a control character is escaped. -/
theorem Chars.nulFree {s d r : Bytes} (h : Chars s d r) : NulFreeBefore s r := by
  induction h with
  | close => exact .of_cons (by decide)
  | plain hplain _ ih =>
    apply ih.cons
    rintro rfl
    revert hplain
    decide
  | escape hescape _ ih =>
    obtain ⟨p, rfl, _, _, hp, _⟩ := escape?_spec hescape
    intro hmem
    have hescaped : 0 ∈ p ++ _ := NulFreeBefore.of_cons (by decide) hmem
    exact ih (NulFreeBefore.of_append hp hescaped)

/-- A numeral has no NUL. -/
theorem zero_not_mem_numeral {n : Bytes} (h : isNumeral n = true) : 0 ∉ n := by
  intro hmem
  have hzero := isNumeralByte_of_isNumeral h 0 hmem
  revert hzero
  decide

mutual

/-- A value is written without NUL, whatever it denotes. -/
theorem IsValue.nulFree {s r : Bytes} {v : Value ν} : IsValue num s v r → NulFreeBefore s r
  | .null | .isTrue | .isFalse => .of_append (by decide)
  | .number hnumeral => .of_append (zero_not_mem_numeral hnumeral)
  | .string hchars => hchars.nulFree.cons (by decide)
  | .emptyArray hws | .emptyObject hws => by
    intro hmem
    have hclosing := hws.nulFree.cons (by decide) hmem
    exact NulFreeBefore.of_cons (by decide) hclosing
  | .array helements => helements.nulFree.cons (by decide)
  | .object hmembers => hmembers.nulFree.cons (by decide)

theorem IsElements.nulFree {s r : Bytes} {vs : List (Value ν)} :
    IsElements num s vs r → NulFreeBefore s r
  | .last hbefore hvalue hafter => by
    intro hmem
    have helement := hvalue.nulFree (hbefore.nulFree hmem)
    have hclosing := hafter.nulFree helement
    exact NulFreeBefore.of_cons (by decide) hclosing
  | .cons hbefore hvalue hafter htail => by
    intro hmem
    have helement := hvalue.nulFree (hbefore.nulFree hmem)
    have hcomma := hafter.nulFree helement
    exact htail.nulFree.cons (by decide) hcomma

theorem IsMembers.nulFree {s r : Bytes} {ms : List (Bytes × Value ν)} :
    IsMembers num s ms r → NulFreeBefore s r
  | .last hbefore hname hcolon hvaluews hvalue hafter => by
    intro hmem
    have hnamed := hname.nulFree.cons (by decide) (hbefore.nulFree hmem)
    have hmember := hvaluews.nulFree.cons (by decide) (hcolon.nulFree hnamed)
    have hclosing := hafter.nulFree (hvalue.nulFree hmember)
    exact NulFreeBefore.of_cons (by decide) hclosing
  | .cons hbefore hname hcolon hvaluews hvalue hafter htail => by
    intro hmem
    have hnamed := hname.nulFree.cons (by decide) (hbefore.nulFree hmem)
    have hmember := hvaluews.nulFree.cons (by decide) (hcolon.nulFree hnamed)
    have hcomma := hafter.nulFree (hvalue.nulFree hmember)
    exact htail.nulFree.cons (by decide) hcomma

end

/-- A JSON text has no NUL in it, so a C string holds it whole. -/
theorem Denotes.nulFree {s : Bytes} {v : Value ν} (h : Denotes num s v) : 0 ∉ s := by
  obtain ⟨s₁, r, hbefore, hvalue, hafter⟩ := h
  intro hmem
  have hnil := hafter.nulFree (hvalue.nulFree (hbefore.nulFree hmem))
  cases hnil

end

end json
