import Taraxacum.Rapidjson.Reference

open json
open taraxacum.rapidjson

namespace taraxacum

/-- `RestService<F>::operator()`, on what `F` makes of a document. -/
def RestService {ν : Type} (rj : Rapidjson ν) (F : Value ν → Value ν) (http_request : Bytes) : Bytes :=
  match rj.Parse (cstr http_request) with
  | .error e => parseErrorText rj e
  | .ok d => cstr (rj.Accept (F d)).2

namespace RestService

section
variable {ν : Type} (num : Bytes → ν) (rj : Rapidjson ν)

/-- What the service owes a request: the whole text of the document `F` left, or an
    object that reports the error. -/
def AnswersJson (F : Value ν → Value ν) (http_request : Bytes) : Prop :=
  match rj.Parse (cstr http_request) with
  | .error e =>
    ∃ members, Denotes num (RestService rj F http_request) (.object members) ∧
      members.lookup (lit "errcode") = some (.number (num (decimal e.GetErrorOffset))) ∧
      members.lookup (lit "errmsg") = some (.string (rj.GetParseError_En e.GetParseError))
  | .ok d =>
    (rj.Accept (F d)).1 = true ∧ RestService rj F http_request = (rj.Accept (F d)).2 ∧
      WellFormed num (RestService rj F http_request)

variable {num rj}

/-- The error text opens a string after its first brace and a number after that,
    where a colon has to be. -/
theorem parseErrorText_not_wellFormed (e : ParseError) : ¬ WellFormed num (parseErrorText rj e) := by
  rintro ⟨v, s, r, hbefore, hvalue, _⟩
  obtain ⟨d, ds, hdecimal, hdigit⟩ := decimal_eq_cons (UInt32.ofNat e.GetErrorOffset).toNat
  have htext : ∃ rest, parseErrorText rj e = lbrace :: quote :: (lit "errcode:" ++ quote :: d :: rest) :=
    ⟨ds ++ (lit ", \"errmsg\":" ++ rj.GetParseError_En e.GetParseError ++ lit "\x7d"), by
      simp only [parseErrorText, hdecimal, List.append_assoc]
      rfl⟩
  obtain ⟨rest, htext⟩ := htext
  rw [htext] at hbefore
  obtain rfl := hbefore.eq_of_not_ws (by decide)
  obtain ⟨k, t, u, hname, hcolon⟩ := hvalue.of_lbrace_quote
  obtain ⟨_, rfl⟩ := hname.unique (.of_plain (by decide) _)
  obtain ⟨hws, _⟩ := not_ws_of_isNumeralByte (isNumeralByte_of_isDigit hdigit)
  obtain ⟨rfl, _⟩ := List.cons.inj (hcolon.eq_of_not_ws hws)
  revert hdigit
  decide

variable {F : Value ν → Value ν} {http_request : Bytes}

/-- The text for a parse error is no JSON, whatever the error is. -/
theorem not_answersJson_of_error {e : ParseError} (hparse : rj.Parse (cstr http_request) = .error e) :
    ¬ AnswersJson num rj F http_request := by
  simp only [AnswersJson, RestService, hparse]
  rintro ⟨members, hdenotes, _⟩
  exact parseErrorText_not_wellFormed e ⟨_, hdenotes⟩

/-- The text of a document with finite numbers has no NUL, so `GetString` hands it on whole. -/
theorem answersJson_of_finite {finite : ν → Prop} (hwriter : WritesTexts num finite rj) {d : Value ν}
    (hparse : rj.Parse (cstr http_request) = .ok d) (hfinite : (F d).All finite) :
    AnswersJson num rj F http_request := by
  simp only [AnswersJson, RestService, hparse]
  obtain ⟨hflag, v, hdenotes⟩ := hwriter.whole (F d) hfinite
  have hwhole : cstr (rj.Accept (F d)).2 = (rj.Accept (F d)).2 := cstr_of_not_mem hdenotes.nulFree
  refine ⟨hflag, hwhole, v, ?_⟩
  rwa [hwhole]

/-- The service answers with JSON exactly when the body parses and every number
    in the document `F` leaves is finite. -/
theorem answersJson_iff {finite : ν → Prop} (hwriter : WritesTexts num finite rj) (F : Value ν → Value ν)
    (http_request : Bytes) :
    AnswersJson num rj F http_request ↔ ∃ d, rj.Parse (cstr http_request) = .ok d ∧ (F d).All finite := by
  constructor
  · intro h
    cases hparse : rj.Parse (cstr http_request) with
    | error e => exact absurd h (not_answersJson_of_error hparse)
    | ok d =>
      refine ⟨d, rfl, ?_⟩
      simp only [AnswersJson, hparse] at h
      by_contra hfinite
      rw [hwriter.partialOutput _ hfinite] at h
      cases h.1
  · rintro ⟨d, hparse, hfinite⟩
    exact answersJson_of_finite hwriter hparse hfinite

end

/-- A functor that leaves the document alone, on the body `null`. -/
theorem answersJson_null : AnswersJson id reference id (lit "null") :=
  (answersJson_iff reference_writesTexts id (lit "null")).mpr ⟨.null, rfl, trivial⟩

/-- A body of one letter. -/
theorem answersJson_not_always :
    ¬ ∀ (F : Value Bytes → Value Bytes) (http_request : Bytes), AnswersJson id reference F http_request :=
  fun h => not_answersJson_of_error (e := ⟨0, 3⟩) rfl (h id (lit "x"))

end RestService

end taraxacum
