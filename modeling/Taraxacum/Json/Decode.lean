import Taraxacum.Json.Parser
import Taraxacum.Json.Numeral

namespace json

section
variable {ν : Type} {num : Bytes → ν}

/-- What the decoder reads off the front of a text, the grammar derives: values,
    elements and members together, by induction on the fuel they share. -/
theorem sound (fuel : Nat) :
    (∀ s v r, value num fuel s = some (v, r) → IsValue num s v r) ∧
    (∀ s vs r, elements num fuel s = some (vs, r) → IsElements num s vs r) ∧
    (∀ s ms r, members num fuel s = some (ms, r) → IsMembers num s ms r) := by
  induction fuel with
  | zero =>
    refine ⟨?_, ?_, ?_⟩ <;> intro _ _ _ h <;> cases h
  | succ fuel ih =>
    obtain ⟨ihvalue, ihelements, ihmembers⟩ := ih
    refine ⟨?_, ?_, ?_⟩
    · intro s v r h
      cases s with
      | nil => cases h
      | cons b s =>
        rw [value] at h
        split at h
        · rename_i hb
          subst hb
          simp only [Option.map_eq_some_iff, Prod.exists, Prod.mk.injEq] at h
          obtain ⟨d, r, hchars, rfl, rfl⟩ := h
          exact .string (string?_eq_some_iff.mp hchars)
        split at h
        · rename_i hb
          subst hb
          split at h
          · rename_i hclose
            obtain ⟨rfl, rfl⟩ := h
            exact .emptyArray (ws_of_expect? hclose)
          · simp only [Option.map_eq_some_iff, Prod.exists, Prod.mk.injEq] at h
            obtain ⟨vs, r, helements, rfl, rfl⟩ := h
            exact .array (ihelements s vs r helements)
        split at h
        · rename_i hb
          subst hb
          split at h
          · rename_i hclose
            obtain ⟨rfl, rfl⟩ := h
            exact .emptyObject (ws_of_expect? hclose)
          · simp only [Option.map_eq_some_iff, Prod.exists, Prod.mk.injEq] at h
            obtain ⟨ms, r, hmembers, rfl, rfl⟩ := h
            exact .object (ihmembers s ms r hmembers)
        split at h
        · simp only at h
          split at h
          · rename_i hnumeral
            obtain ⟨rfl, rfl⟩ := h
            have hnumber := @IsValue.number _ num _ ((b :: s).dropWhile isNumeralByte) hnumeral
            rwa [List.takeWhile_append_dropWhile] at hnumber
          · cases h
        split at h
        · simp only [Option.map_eq_some_iff, Prod.mk.injEq] at h
          obtain ⟨r, hnull, rfl, rfl⟩ := h
          rw [expect?_eq_some_iff.mp hnull]
          exact .null
        split at h
        · simp only [Option.map_eq_some_iff, Prod.mk.injEq] at h
          obtain ⟨r, htrue, rfl, rfl⟩ := h
          rw [expect?_eq_some_iff.mp htrue]
          exact .isTrue
        · simp only [Option.map_eq_some_iff, Prod.mk.injEq] at h
          obtain ⟨r, hfalse, rfl, rfl⟩ := h
          rw [expect?_eq_some_iff.mp hfalse]
          exact .isFalse
    · intro s vs r h
      rw [elements] at h
      split at h
      · cases h
      · rename_i v t hvalue
        have hv := ihvalue _ v t hvalue
        split at h
        · rename_i hclose
          obtain ⟨rfl, rfl⟩ := h
          exact .last (ws_skipWs s) hv (ws_of_expect? hclose)
        · split at h
          · rename_i hcomma
            simp only [Option.map_eq_some_iff, Prod.exists, Prod.mk.injEq] at h
            obtain ⟨vs, r, htail, rfl, rfl⟩ := h
            exact .cons (ws_skipWs s) hv (ws_of_expect? hcomma)
              (ihelements _ vs r htail)
          · cases h
    · intro s ms r h
      rw [members] at h
      split at h
      · cases h
      · rename_i k t hname
        simp only [Option.bind_eq_some_iff, string?_eq_some_iff] at hname
        obtain ⟨s₁, hquote, hname⟩ := hname
        split at h
        · cases h
        · rename_i v u hvalue
          simp only [Option.bind_eq_some_iff] at hvalue
          obtain ⟨s₃, hcolon, hvalue⟩ := hvalue
          have hbefore := ws_of_expect? hquote
          have hmiddle := ws_of_expect? hcolon
          have hv := ihvalue _ v u hvalue
          split at h
          · rename_i hclose
            obtain ⟨rfl, rfl⟩ := h
            exact .last hbefore hname hmiddle (ws_skipWs s₃) hv (ws_of_expect? hclose)
          · split at h
            · rename_i hcomma
              simp only [Option.map_eq_some_iff, Prod.exists, Prod.mk.injEq] at h
              obtain ⟨ms, r, htail, rfl, rfl⟩ := h
              exact .cons hbefore hname hmiddle (ws_skipWs s₃) hv
                (ws_of_expect? hcomma) (ihmembers _ ms r htail)
            · cases h

/-- What stands before a member's value takes three octets and more. -/
theorem length_name_le {s s₁ s₂ s₃ s₄ k : Bytes} (hbefore : Ws s (quote :: s₁)) (hname : Chars s₁ k s₂)
    (hcolon : Ws s₂ (colon :: s₃)) (hvaluews : Ws s₃ s₄) : s₄.length + 3 ≤ s.length := by
  have hquote := hbefore.length_le
  have hclose := hname.length_lt
  have hcolon := hcolon.length_le
  have hvalue := hvaluews.length_le
  simp only [List.length_cons] at hquote hcolon
  omega

mutual

/-- A value takes at least one octet. -/
theorem IsValue.length_lt {s r : Bytes} {v : Value ν} : IsValue num s v r → r.length < s.length
  | .null | .isTrue | .isFalse => by
    simp only [lit, List.length_append, List.length_map]
    exact Nat.lt_add_of_pos_left (by decide)
  | .number hnumeral => by
    have hpos := List.length_pos_iff.mpr (ne_nil_of_isNumeral hnumeral)
    simp only [List.length_append]
    omega
  | .string hchars => Nat.lt_succ_of_lt hchars.length_lt
  | .emptyArray hws | .emptyObject hws => by
    have hle := hws.length_le
    simp only [List.length_cons] at hle ⊢
    omega
  | .array helements => Nat.lt_succ_of_lt helements.length_lt
  | .object hmembers => Nat.lt_succ_of_lt hmembers.length_lt

/-- The elements of an array take their bracket at least. -/
theorem IsElements.length_lt {s r : Bytes} {vs : List (Value ν)} :
    IsElements num s vs r → r.length < s.length
  | .last hbefore hvalue hafter => by
    have hlt := hvalue.length_lt
    have hle₁ := hbefore.length_le
    have hle₂ := hafter.length_le
    simp only [List.length_cons] at hle₂
    omega
  | .cons hbefore hvalue hafter htail => by
    have hlt := hvalue.length_lt
    have hlt' := htail.length_lt
    have hle₁ := hbefore.length_le
    have hle₂ := hafter.length_le
    simp only [List.length_cons] at hle₂
    omega

/-- The members of an object take their brace at least. -/
theorem IsMembers.length_lt {s r : Bytes} {ms : List (Bytes × Value ν)} :
    IsMembers num s ms r → r.length < s.length
  | .last hbefore hname hcolon hvaluews hvalue hafter => by
    have hlt := hvalue.length_lt
    have hname := length_name_le hbefore hname hcolon hvaluews
    have hle := hafter.length_le
    simp only [List.length_cons] at hle
    omega
  | .cons hbefore hname hcolon hvaluews hvalue hafter htail => by
    have hlt := hvalue.length_lt
    have hlt' := htail.length_lt
    have hname := length_name_le hbefore hname hcolon hvaluews
    have hle := hafter.length_le
    simp only [List.length_cons] at hle
    omega

end

/-- The first octet of a numeral is neither white space nor the first one of any other value. -/
theorem not_ws_of_isNumeralByte {b : UInt8} (h : isNumeralByte b = true) :
    isWs b = false ∧ b ≠ quote ∧ b ≠ lbracket ∧ b ≠ rbracket ∧ b ≠ lbrace := by
  refine ⟨?_, ?_, ?_, ?_, ?_⟩
  · by_contra hws
    simp only [isWs, Bool.not_eq_false, Bool.or_eq_true, beq_iff_eq] at hws
    rcases hws with ((rfl | rfl) | rfl) | rfl <;> revert h <;> decide
  all_goals
    rintro rfl
    revert h
    decide

/-- A value begins with an octet that is neither whitespace nor a closing bracket. -/
theorem IsValue.head {s r : Bytes} {v : Value ν} (h : IsValue num s v r) :
    ∃ b t, s = b :: t ∧ isWs b = false ∧ b ≠ rbracket := by
  cases h with
  | null | isTrue | isFalse => exact ⟨_, _, rfl, by decide, by decide⟩
  | @number n r hnumeral =>
    obtain ⟨b, n, rfl⟩ := List.exists_cons_of_ne_nil (ne_nil_of_isNumeral hnumeral)
    obtain ⟨hws, _, _, hb, _⟩ :=
      not_ws_of_isNumeralByte (isNumeralByte_of_isNumeral hnumeral b (List.mem_cons_self ..))
    exact ⟨b, n ++ r, rfl, hws, hb⟩
  | string | emptyArray | array | emptyObject | object => exact ⟨_, _, rfl, by decide, by decide⟩

/-- A value begins with no white space, so that skipping ends where the value begins. -/
theorem IsValue.skipWs_eq {s s₁ r : Bytes} {v : Value ν} (h : IsValue num s₁ v r) (hws : Ws s s₁) :
    skipWs s = s₁ := by
  obtain ⟨b, t, rfl, hb, _⟩ := h.head
  exact hws.skipWs_cons hb

/-- The parser finds an octet after white space exactly where the grammar has it. -/
theorem Ws.expect? {s r : Bytes} {b : UInt8} (h : Ws s (b :: r)) (hb : isWs b = false) (c : UInt8) :
    expect? [c] (skipWs s) = if b = c then some r else none := by
  rw [h.skipWs_cons hb]
  split
  · rename_i heq
    rw [heq]
    exact expect?_append [c] r
  · rename_i hne
    exact expect?_cons_of_ne hne r

/-- A numeral before white space and another octet is at its end. -/
theorem Ws.numeralEnds_cons {s r : Bytes} {b : UInt8} (h : Ws s (b :: r)) (hb : isNumeralByte b = false) :
    NumeralEnds s :=
  h.numeralEnds (json.numeralEnds_cons hb)

mutual

/-- The decoder reads every derivable value whole. Two steps of fuel for each
    octet are enough: one for a value and one for the list it heads. -/
theorem IsValue.complete {s r : Bytes} {v : Value ν} (hends : NumeralEnds r) :
    IsValue num s v r → ∀ fuel, 2 * s.length ≤ fuel → value num (fuel + 1) s = some (v, r)
  | .null, _, _ | .isTrue, _, _ | .isFalse, _, _ => rfl
  | .string hchars, fuel, _ => by
    rw [value, if_pos rfl, string?_eq_some_iff.mpr hchars]
    rfl
  | @IsValue.number _ _ n r hnumeral, fuel, _ => by
    obtain ⟨htake, hdrop⟩ := takeWhile_numeral hnumeral hends
    obtain ⟨b, n, rfl⟩ := List.exists_cons_of_ne_nil (ne_nil_of_isNumeral hnumeral)
    have hb := isNumeralByte_of_isNumeral hnumeral b (List.mem_cons_self ..)
    obtain ⟨_, hquote, hlbracket, _, hlbrace⟩ := not_ws_of_isNumeralByte hb
    rw [List.cons_append] at htake hdrop ⊢
    rw [value, if_neg hquote, if_neg hlbracket, if_neg hlbrace, if_pos hb, htake, hdrop]
    simp only [hnumeral, if_true]
  | .emptyArray hws, fuel, _ => by
    rw [value, if_neg (by decide), if_pos rfl, hws.expect? (by decide), if_pos rfl]
  | .emptyObject hws, fuel, _ => by
    rw [value, if_neg (by decide), if_neg (by decide), if_pos rfl, hws.expect? (by decide), if_pos rfl]
  | @IsValue.array _ _ s r vs helements, fuel, hfuel => by
    obtain ⟨fuel, rfl⟩ : ∃ f, fuel = f + 2 := ⟨fuel - 2, by simp only [List.length_cons] at hfuel; omega⟩
    have hclose : expect? [rbracket] (skipWs s) = none := by
      cases helements with
      | last hbefore hvalue _ | cons hbefore hvalue _ _ =>
        rw [hvalue.skipWs_eq hbefore]
        obtain ⟨b, t, rfl, _, hb⟩ := hvalue.head
        exact expect?_cons_of_ne hb t
    rw [value, if_neg (by decide), if_pos rfl, hclose,
      helements.complete fuel (by simp only [List.length_cons] at hfuel; omega)]
    rfl
  | @IsValue.object _ _ s r ms hmembers, fuel, hfuel => by
    obtain ⟨fuel, rfl⟩ : ∃ f, fuel = f + 2 := ⟨fuel - 2, by simp only [List.length_cons] at hfuel; omega⟩
    have hclose : expect? [rbrace] (skipWs s) = none := by
      cases hmembers with
      | last hbefore | cons hbefore => exact hbefore.expect? (by decide) rbrace
    rw [value, if_neg (by decide), if_neg (by decide), if_pos rfl, hclose,
      hmembers.complete fuel (by simp only [List.length_cons] at hfuel; omega)]
    rfl

/-- Every array of the grammar is read, with fuel for two turns an octet. -/
theorem IsElements.complete {s r : Bytes} {vs : List (Value ν)} :
    IsElements num s vs r → ∀ fuel, 2 * s.length ≤ fuel → elements num (fuel + 2) s = some (vs, r)
  | .last hbefore hvalue hafter, fuel, hfuel => by
    have hle := hbefore.length_le
    rw [elements, hvalue.skipWs_eq hbefore,
      hvalue.complete (hafter.numeralEnds_cons (by decide)) fuel (by omega)]
    simp only [hafter.expect? (by decide), if_true]
  | .cons hbefore hvalue hafter htail, fuel, hfuel => by
    have hle₁ := hbefore.length_le
    have hle₂ := hafter.length_le
    have hlt := hvalue.length_lt
    simp only [List.length_cons] at hle₂
    obtain ⟨fuel, rfl⟩ : ∃ f, fuel = f + 1 := ⟨fuel - 1, by omega⟩
    rw [elements, hvalue.skipWs_eq hbefore,
      hvalue.complete (hafter.numeralEnds_cons (by decide)) (fuel + 1) (by omega)]
    simp only [hafter.expect? (by decide), if_neg (by decide : comma ≠ rbracket), if_true]
    rw [htail.complete fuel (by omega)]
    rfl

/-- Every object of the grammar is read, with fuel for two turns an octet. -/
theorem IsMembers.complete {s r : Bytes} {ms : List (Bytes × Value ν)} :
    IsMembers num s ms r → ∀ fuel, 2 * s.length ≤ fuel → members num (fuel + 2) s = some (ms, r)
  | .last hbefore hname hcolon hvaluews hvalue hafter, fuel, hfuel => by
    have hle := length_name_le hbefore hname hcolon hvaluews
    rw [members, hbefore.expect? (by decide), if_pos rfl, Option.bind_some,
      string?_eq_some_iff.mpr hname]
    simp only [hcolon.expect? (by decide), if_true, Option.bind_some, hvalue.skipWs_eq hvaluews]
    rw [hvalue.complete (hafter.numeralEnds_cons (by decide)) fuel (by omega)]
    simp only [hafter.expect? (by decide), if_true]
  | .cons hbefore hname hcolon hvaluews hvalue hafter htail, fuel, hfuel => by
    have hlt := hvalue.length_lt
    have hle := length_name_le hbefore hname hcolon hvaluews
    have hle' := hafter.length_le
    simp only [List.length_cons] at hle'
    obtain ⟨fuel, rfl⟩ : ∃ f, fuel = f + 1 := ⟨fuel - 1, by omega⟩
    rw [members, hbefore.expect? (by decide), if_pos rfl, Option.bind_some,
      string?_eq_some_iff.mpr hname]
    simp only [hcolon.expect? (by decide), if_true, Option.bind_some, hvalue.skipWs_eq hvaluews]
    rw [hvalue.complete (hafter.numeralEnds_cons (by decide)) (fuel + 1) (by omega)]
    simp only [hafter.expect? (by decide), if_neg (by decide : comma ≠ rbrace), if_true]
    rw [htail.complete fuel (by omega)]
    rfl

end

/-- The decoder computes the denotation: it accepts exactly the texts of the
    grammar, and gives the one value each of them denotes. -/
theorem parse_eq_some_iff {s : Bytes} {v : Value ν} : parse num s = some v ↔ Denotes num s v := by
  constructor
  · intro h
    unfold parse at h
    split at h
    · rename_i v' r hvalue
      split at h
      · rename_i hend
        obtain rfl : v' = v := by simpa using h
        have hws := ws_skipWs r
        rw [hend] at hws
        exact ⟨_, r, ws_skipWs s, (sound _).1 _ _ _ hvalue, hws⟩
      · cases h
    · cases h
  · rintro ⟨s₁, r, hbefore, hvalue, hafter⟩
    have hle := hbefore.length_le
    have hends : NumeralEnds r := hafter.numeralEnds numeralEnds_nil
    rw [parse, hvalue.skipWs_eq hbefore, hvalue.complete hends (2 * s.length) (by omega)]
    have hend : skipWs r = [] := hafter.skipWs_eq
    simp only [hend, if_true]

/-- No text denotes two values. -/
theorem Denotes.unique {s : Bytes} {v w : Value ν} (hv : Denotes num s v) (hw : Denotes num s w) : v = w := by
  rw [← parse_eq_some_iff] at hv hw
  exact Option.some.inj (hv.symm.trans hw)

end

end json
