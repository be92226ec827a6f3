import Taraxacum.RestService

open json exec
open taraxacum.rapidjson

namespace taraxacum.RestService

section
variable {ν : Type} (num : Bytes → ν) (rj : Rapidjson ν)

/-- `RestService<F>::operator()` with a record of the documents `F` is applied to. -/
def applying (F : Value ν → Value ν) (http_request : Bytes) : Exec (Value ν) Exception Bytes :=
  match rj.Parse (cstr http_request) with
  | .error e => return parseErrorText rj e
  | .ok d => do
    Exec.emit d
    return cstr (rj.Accept (F d)).2

/-- `F` is applied, once, exactly when the whole body is a text, and then to the value of
    that text; on any other body the error is the answer. -/
structure AcceptsExactly (F : Value ν → Value ν) (http_request : Bytes) : Prop where
  applied : ∀ v, (applying rj F http_request).events = [v] ↔ Denotes num http_request v
  refused : ¬ WellFormed num http_request → (applying rj F http_request).events = [] ∧
    ∃ e, rj.Parse (cstr http_request) = .error e ∧
      (applying rj F http_request).outcome = .returned (parseErrorText rj e)

/-- With a functor that leaves the document alone, a body that is no text is answered as no
    text is. -/
def ToldApart (http_request : Bytes) : Prop :=
  ¬ WellFormed num http_request →
    ∀ text, WellFormed num text → RestService rj id text ≠ RestService rj id http_request

variable {num rj} {F : Value ν → Value ν} {http_request : Bytes}

/-- The record aside, it is the service. -/
theorem applying_outcome (F : Value ν → Value ν) (http_request : Bytes) :
    (applying rj F http_request).outcome = .returned (RestService rj F http_request) := by
  unfold applying RestService
  cases rj.Parse (cstr http_request) <;> rfl

/-- What stands before the first NUL is all that is parsed. -/
theorem exists_error_iff (hparse : ParsesExactly num rj.Parse) :
    (∃ e, rj.Parse (cstr http_request) = .error e) ↔ ¬ WellFormed num (cstr http_request) := by
  constructor
  · rintro ⟨e, herror⟩ ⟨v, hdenotes⟩
    rw [(hparse _ v).mpr hdenotes] at herror
    cases herror
  · intro hill
    cases hparsed : rj.Parse (cstr http_request) with
    | error e => exact ⟨e, rfl⟩
    | ok v => exact absurd ⟨v, (hparse _ v).mp hparsed⟩ hill

/-- On a parse error the functor is not applied, and the error text is returned. -/
theorem applying_of_error {e : ParseError} (herror : rj.Parse (cstr http_request) = .error e) :
    applying rj F http_request = ⟨[], .returned (parseErrorText rj e)⟩ := by
  rw [applying, herror]
  rfl

/-- Otherwise it is applied once, to what was parsed. -/
theorem applying_events_of_ok {v : Value ν} (hok : rj.Parse (cstr http_request) = .ok v) :
    (applying rj F http_request).events = [v] := by
  rw [applying, hok]
  rfl

/-- A JSON text has no NUL, so that `Parse` sees all of it. -/
theorem cstr_of_wellFormed {s : Bytes} (h : WellFormed num s) : cstr s = s := by
  obtain ⟨v, hdenotes⟩ := h
  exact cstr_of_not_mem hdenotes.nulFree

/-- `Parse` takes what stands before the first NUL, so that it is wrong exactly where that is a text
    already. -/
theorem acceptsExactly_iff_nul (hparse : ParsesExactly num rj.Parse) (F : Value ν → Value ν)
    (http_request : Bytes) :
    AcceptsExactly num rj F http_request ↔ (WellFormed num (cstr http_request) → 0 ∉ http_request) := by
  constructor
  · rintro ⟨happlied, _⟩ ⟨v, hdenotes⟩
    have hevents := @applying_events_of_ok _ _ F _ _ ((hparse _ v).mpr hdenotes)
    exact ((happlied v).mp hevents).nulFree
  · intro hnul
    by_cases hill : WellFormed num (cstr http_request)
    · rw [cstr_of_not_mem (hnul hill)] at hill
      obtain ⟨d, hd⟩ := hill
      have hok : rj.Parse (cstr http_request) = .ok d := by
        rw [cstr_of_not_mem hd.nulFree]
        exact (hparse _ d).mpr hd
      refine ⟨fun v => ?_, fun hrefused => absurd ⟨d, hd⟩ hrefused⟩
      rw [applying_events_of_ok hok, List.singleton_inj]
      constructor
      · rintro rfl
        exact hd
      · exact fun hv => hd.unique hv
    · obtain ⟨e, herror⟩ := (exists_error_iff hparse).mpr hill
      have happlying := @applying_of_error _ _ F _ _ herror
      refine ⟨fun v => ?_, fun _ => ⟨?_, e, herror, ?_⟩⟩
      · rw [happlying]
        constructor
        · exact nofun
        · intro hv
          have hwell : WellFormed num http_request := ⟨v, hv⟩
          rw [cstr_of_wellFormed hwell] at hill
          exact absurd hwell hill
      · rw [happlying]
      · rw [happlying]

/-- The text of an untouched document is well formed, as its numbers were read off numerals. -/
theorem wellFormed_answer {finite : ν → Prop} (hparse : ParsesExactly num rj.Parse)
    (hwriter : WritesTexts num finite rj) (hfinite : ∀ n, isNumeral n = true → finite (num n)) {text : Bytes}
    (htext : WellFormed num text) : WellFormed num (RestService rj id text) := by
  have hcstr := cstr_of_wellFormed htext
  obtain ⟨d, hdenotes⟩ := htext
  have hok : rj.Parse (cstr text) = .ok d := by
    rw [hcstr]
    exact (hparse _ d).mpr hdenotes
  obtain ⟨_, v, hwritten⟩ := hwriter.whole d (hdenotes.all hfinite)
  refine ⟨v, ?_⟩
  simp only [RestService, hok, id_eq]
  rwa [cstr_of_not_mem hwritten.nulFree]

/-- And so is the answer: a body that is no text is answered as the text before its first NUL is, if
    that is one, and otherwise with an error, which is no JSON. -/
theorem toldApart_iff_nul {finite : ν → Prop} (hparse : ParsesExactly num rj.Parse)
    (hwriter : WritesTexts num finite rj) (hfinite : ∀ n, isNumeral n = true → finite (num n))
    (http_request : Bytes) :
    ToldApart num rj http_request ↔ (WellFormed num (cstr http_request) → 0 ∉ http_request) := by
  constructor
  · intro htold hwell hmem
    have hill : ¬ WellFormed num http_request := by
      rintro ⟨v, hdenotes⟩
      exact hdenotes.nulFree hmem
    -- The body is answered as the text before its first NUL is.
    apply htold hill (cstr http_request) hwell
    simp only [RestService, cstr_cstr]
  · intro hnul hill text htext halike
    have hprefix : ¬ WellFormed num (cstr http_request) := by
      intro hwell
      rw [cstr_of_not_mem (hnul hwell)] at hwell
      exact hill hwell
    obtain ⟨e, herror⟩ := (exists_error_iff hparse).mpr hprefix
    have hanswer := wellFormed_answer hparse hwriter hfinite htext
    rw [halike] at hanswer
    simp only [RestService, herror] at hanswer
    exact parseErrorText_not_wellFormed e hanswer

/-- The service accepts a body exactly as it should when the body has no NUL, or what
    stands before its first NUL is no text; and these are the bodies it tells apart from
    every text. -/
theorem acceptsExactly_iff (hparse : ParsesExactly num rj.Parse) (F : Value ν → Value ν)
    (http_request : Bytes) :
    (AcceptsExactly num rj F http_request ↔ (WellFormed num (cstr http_request) → 0 ∉ http_request)) ∧
      ∀ finite, WritesTexts num finite rj → (∀ n, isNumeral n = true → finite (num n)) →
        (ToldApart num rj http_request ↔ (WellFormed num (cstr http_request) → 0 ∉ http_request)) :=
  ⟨acceptsExactly_iff_nul hparse F http_request,
    fun _ hwriter hfinite => toldApart_iff_nul hparse hwriter hfinite http_request⟩

end

/-- The body `null`: it is accepted, and its answer is not one for an error. -/
theorem acceptsExactly_null :
    AcceptsExactly id reference id (lit "null") ∧ ToldApart id reference (lit "null") := by
  obtain ⟨haccepts, htold⟩ := acceptsExactly_iff reference_parsesExactly id (lit "null")
  exact ⟨haccepts.mpr fun _ => by decide,
    (htold _ reference_writesTexts fun _ hnumeral => hnumeral).mpr fun _ => by decide⟩

/-- A text with a NUL behind it: the functor is applied to the value of the text. -/
theorem acceptsExactly_not_always :
    ¬ ∀ (F : Value Bytes → Value Bytes) (http_request : Bytes),
      AcceptsExactly id reference F http_request ∧ ToldApart id reference http_request := by
  intro h
  have haccepts := (h id (lit "null" ++ [0])).1
  have hnull : WellFormed id (cstr (lit "null" ++ [0])) := ⟨.null, _, [], .nil, .null, .nil⟩
  exact (acceptsExactly_iff_nul reference_parsesExactly _ _).mp haccepts hnull (by decide)

end taraxacum.RestService
