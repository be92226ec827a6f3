import Taraxacum.Http.Parser.Stream
import Taraxacum.Push.Letters

open json exec push

namespace taraxacum.http.basic_parser_v1

/-- The octets each piece of a message may have. -/
def Letter : pmf_t → UInt8 → Prop
  | .call_on_method, ch | .call_on_field, ch => is_tchar ch = true
  | .call_on_uri, ch => is_text ch = true ∧ ch ≠ 0x20
  | .call_on_reason, ch | .call_on_value, ch => is_text ch = true
  | .call_on_body, _ => True

/-- What the parser itself adds to a value is text, and `resets` says whether a message may follow another. -/
def Sober (resets : Prop) : callback → Prop
  | .on_value s => ∀ ch ∈ s, is_text ch = true
  | .reset => resets
  | _ => True

def SoberAction (resets : Prop) : Action pmf_t callback → Prop
  | .call g | .callUnchecked g => Sober resets g
  | _ => True

/-- A turn at `ch` that gathers only what it may. -/
structure Lettered (resets : Prop) (ch : UInt8) (x : Turn (basic_parser_v1 × Bool)) : Prop where
  calls : x.Emits (SoberAction resets)
  gathers : ∀ d, x.outcome = .returned (d, false) → ∀ t, d.cb_ = some t → Letter t ch
  last : ∀ d, x.outcome = .returned (d, true) → ∀ t, .piece t ∈ x.events → t = .call_on_body

section
variable {resets : Prop} {c : basic_parser_v1} {ch : UInt8} {x : Turn (basic_parser_v1 × Bool)}

/-- Nothing is gathered after an error. -/
theorem Lettered.err (ev : parse_error) : Lettered resets ch (err ev c) := by
  refine ⟨.raise _, ?_, ?_⟩ <;> intro d h <;> cases h

/-- A turn that goes on has to gather letters of its piece. -/
theorem Lettered.next (hcb : ∀ t, c.cb_ = some t → Letter t ch) : Lettered resets ch (pure (c, false)) := by
  refine ⟨.pure _, ?_, ?_⟩
  · rintro d ⟨⟩
    exact hcb
  · intro d h
    cases h

/-- Nothing is gathered after the end of a message. -/
theorem Lettered.ended : Lettered resets ch (pure (c, true)) := by
  refine ⟨.pure _, ?_, ?_⟩
  · intro d h
    cases h
  · intro d _ t ht
    cases ht

/-- Nothing is asked of an octet that nobody gathers. -/
theorem Lettered.idle (hcb : c.cb_ = none) : Lettered resets ch (pure (c, false)) := by
  refine .next fun t ht => ?_
  rw [hcb] at ht
  cases ht

/-- Every octet is a letter of a body. -/
theorem Lettered.body (hcb : c.cb_ = some .call_on_body) : Lettered resets ch (pure (c, false)) := by
  refine .next fun t ht => ?_
  rw [hcb] at ht
  cases ht
  trivial

/-- A turn in two parts, whose first hands over a part of the body at most. -/
theorem Lettered.bind {α : Type} {y : Turn α} {f : α → Turn (basic_parser_v1 × Bool)}
    (hy : y.Emits (SoberAction resets))
    (hpieces : ∀ t, .piece t ∈ y.events → t = .call_on_body)
    (hf : ∀ a, y.outcome = .returned a → Lettered resets ch (f a)) :
    Lettered resets ch (y >>= f) := by
  refine ⟨hy.bind fun a ha => (hf a ha).calls, ?_, ?_⟩
  · intro d h
    obtain ⟨a, ha, hrest⟩ := Exec.bind_eq_returned_iff.mp h
    exact (hf a ha).gathers d hrest
  · intro d h t ht
    obtain ⟨a, ha, hrest⟩ := Exec.bind_eq_returned_iff.mp h
    rw [Exec.bind_events_of_returned ha] at ht
    rcases List.mem_append.mp ht with ht | ht
    · exact hpieces t ht
    · exact (hf a ha).last d hrest t ht

/-- A callback that is allowed in this state. -/
theorem Lettered.emit {a : Action pmf_t callback} (ha : SoberAction resets a)
    (hpiece : ∀ t, a ≠ .piece t) (hx : Lettered resets ch x) :
    Lettered resets ch (Exec.emit a >>= fun _ => x) := by
  refine .bind (.emit ha) ?_ fun _ _ => hx
  intro t ht
  exact absurd (List.mem_singleton.mp ht).symm (hpiece t)

theorem Lettered.assert {b : Bool} (hx : Lettered resets ch x) :
    Lettered resets ch (assert b >>= fun _ => x) := by
  refine .bind ?_ ?_ fun _ _ => hx <;> cases b
  · exact .of_events_eq_nil rfl
  · exact .of_events_eq_nil rfl
  · intro t ht
    cases ht
  · intro t ht
    cases ht

theorem Lettered.skip (n : Nat) (hx : Lettered resets ch x) : Lettered resets ch (skip n >>= fun _ => x) := by
  cases n with
  | zero => exact .bind (.of_events_eq_nil rfl) (fun t ht => by cases ht) fun _ h => by cases h
  | succ n =>
    refine .bind ?_ ?_ fun _ _ => hx
    · intro a ha
      rw [List.eq_of_mem_replicate ha]
      trivial
    · intro t ht
      cases List.eq_of_mem_replicate ht

/-- A piece begins with the octet of this turn. -/
theorem Lettered.begin {t : pmf_t} {f : basic_parser_v1 → Turn (basic_parser_v1 × Bool)} (hcb : c.cb_ = none)
    (hf : Lettered resets ch (f { c with cb_ := some t })) : Lettered resets ch (cb (some t) c >>= f) := by
  rw [cb_some hcb]
  refine .bind ?_ ?_ ?_
  · intro a ha
    obtain rfl : a = .begin t := by simpa using ha
    trivial
  · intro t' ht
    simp at ht
  · rintro d ⟨⟩
    exact hf

/-- A piece ends, and the turn with it. -/
theorem Lettered.piece {s : state} :
    Lettered resets ch (cb none c >>= fun c => pure ({ c with s_ := s }, false)) := by
  rw [cb_none]
  cases c.cb_ with
  | none =>
    rw [pure_bind]
    exact .idle rfl
  | some t =>
    refine ⟨?_, ?_, ?_⟩
    · intro a ha
      obtain rfl : a = .piece t := by simpa [Exec.bind_def, Exec.bind] using ha
      trivial
    · rintro d ⟨⟩ t ht
      cases ht
    · intro d h
      cases h

/-- The end of a message hands over a body at most. -/
theorem lettered_complete (hcb : c.cb_ = none ∨ c.cb_ = some .call_on_body) :
    Lettered resets ch (message_complete c) := by
  refine .emit trivial (by simp) ?_
  rw [cb_none]
  rcases hcb with hcb | hcb <;> rw [hcb]
  · exact .emit trivial (by simp) .ended
  · refine .bind ?_ ?_ fun _ _ => .emit trivial (by simp) .ended
    · intro a ha
      rw [List.mem_singleton.mp ha]
      trivial
    · intro t ht
      cases List.mem_singleton.mp ht
      rfl

/-- The end of the header gathers nothing. -/
theorem lettered_headers_done (isRequest : Bool) (hcb : c.cb_ = none) :
    Lettered resets ch (headers_done isRequest c) := by
  refine .assert ?_
  split_ifs
  · exact lettered_complete (.inl hcb)
  · exact lettered_complete (.inl hcb)
  · exact .idle hcb
  · exact .idle hcb
  · exact lettered_complete (.inl hcb)
  · exact .idle hcb

theorem lettered_headers_almost_done (isRequest : Bool) (what : body_what) (hcb : c.cb_ = none) :
    Lettered resets ch (headers_almost_done isRequest what ch c) := by
  unfold headers_almost_done
  split_ifs
  · exact .err _
  · exact lettered_complete (.inl hcb)
  · exact .err _
  · refine .emit trivial (by simp) ?_
    cases what <;> exact lettered_headers_done isRequest hcb

/-- The first octet of a name is a token character. -/
theorem lettered_header_name0 (hcb : c.cb_ = none) : Lettered resets ch (header_name0 ch c) := by
  unfold header_name0
  split_ifs with hcr hfield
  · exact .idle hcb
  · exact .err _
  · refine .assert (.begin ((cb_name_char0 _).trans hcb) (.next ?_))
    rintro t ⟨⟩
    change is_tchar ch = true
    rw [beq_iff_eq, to_field_char_eq_zero] at hfield
    simpa using hfield

/-- What is looked at while a piece goes on. -/
theorem lettered_recognises {y : Turn basic_parser_v1} (hy : Recognises c y)
    (hcb : ∀ t, c.cb_ = some t → Letter t ch) :
    Lettered resets ch (y >>= fun c => pure (c, false)) := by
  refine .bind (.of_events_eq_nil hy.events) ?_ ?_
  · intro t ht
    rw [hy.events] at ht
    cases ht
  · intro d hd
    refine .next ?_
    rwa [(hy.keeps d hd).1]

/-- The octets of a name are token characters: anything else ends the name or is an error. -/
theorem lettered_header_name (hcb : c.cb_ = some .call_on_field) : Lettered resets ch (header_name ch c) := by
  unfold header_name
  split_ifs with hfield
  · refine lettered_recognises (recognises_name_char _) fun t ht => ?_
    rw [hcb] at ht
    cases ht
    change is_tchar ch = true
    rw [bne_iff_ne, Ne, to_field_char_eq_zero] at hfield
    simpa using hfield
  · exact .piece
  · exact .err _

/-- The octets of a value are text: anything else ends the value or is an error. -/
theorem lettered_header_value (hcb : c.cb_ = some .call_on_value) : Lettered resets ch (header_value ch c) := by
  unfold header_value
  split_ifs with hcr htext
  · exact .piece
  · exact .err _
  · refine lettered_recognises (recognises_value_char _) fun t ht => ?_
    rw [hcb] at ht
    cases ht
    change is_text ch = true
    rw [beq_iff_eq, to_value_char_eq_zero] at htext
    simpa using htext

/-- The first octet of a method is a token character. -/
theorem lettered_req_method0 (hcb : c.cb_ = none) : Lettered resets ch (req_method0 ch c) := by
  unfold req_method0
  split_ifs with hmethod
  · exact .err _
  · refine .emit trivial (by simp) (.assert (.begin hcb (.next ?_)))
    rintro t ⟨⟩
    change is_tchar ch = true
    simpa using hmethod

/-- Before a message nothing is gathered. -/
theorem lettered_start (isRequest : Bool) : Lettered resets ch (start isRequest ch c) := by
  unfold start
  dsimp only
  split_ifs
  · exact lettered_req_method0 rfl
  · exact .err _
  · exact .emit trivial (by simp) (.idle rfl)

/-- A state that waits for one octet gathers nothing. -/
theorem lettered_expect {next : state} (want : UInt8) (ev : parse_error) (hcb : c.cb_ = none) :
    Lettered resets ch (expect ch want ev next c) := by
  unfold expect
  split
  · exact .err _
  · exact .idle hcb

theorem lettered_digit {next : basic_parser_v1} (ev : parse_error) (hcb : next.cb_ = none) :
    Lettered resets ch (digit ch ev c next) := by
  unfold digit
  split
  · exact .err _
  · exact .idle hcb

/-- A body may have any octets. -/
theorem lettered_body_identity (n : Nat) (hcb : c.cb_ = some .call_on_body) :
    Lettered resets ch (body_identity n c) := by
  unfold body_identity
  generalize (if n < c.content_length_ then n else c.content_length_) = k
  refine .assert (.skip k ?_)
  split
  · exact lettered_complete (.inr hcb)
  · exact .body hcb

theorem lettered_chunk_data (n : Nat) (hcb : c.cb_ = some .call_on_body) :
    Lettered resets ch (chunk_data n c) := by
  unfold chunk_data
  generalize (if n < c.content_length_ then n else c.content_length_) = k
  refine .skip k ?_
  split
  · exact .body hcb
  · exact .body hcb

/-- The size of a chunk is gathered by nobody. -/
theorem lettered_chunk_size (hcb : c.cb_ = none) : Lettered resets ch (chunk_size ch c) := by
  unfold chunk_size
  split_ifs
  · exact .idle hcb
  · exact .idle hcb
  · cases unhex ch <;> exact .err _
  · cases unhex ch with
    | none => exact .err _
    | some v => exact .idle hcb

/-- Every turn gathers only what it may. -/
theorem lettered_turn (isRequest : Bool) (what : body_what) (n : Nat) (hc : c.Gathers)
    (hresets : c.s_ = .s_restart → resets) :
    Lettered resets ch (turn isRequest what c n ch) := by
  rcases hc with hdead | hcb
  · rw [turn, hdead]
    exact .err _
  · rw [turn]
    cases hs : c.s_ <;> rw [hs] at hcb <;> dsimp only
    case s_dead | s_closed_complete => exact .err _
    case s_req_start | s_res_start => exact lettered_start _
    case s_req_method0 => exact lettered_req_method0 hcb
    case s_req_method =>
      split_ifs with hspace hmethod
      · exact .piece
      · exact .err _
      · refine .next fun t ht => ?_
        rw [hcb] at ht
        cases ht
        change is_tchar ch = true
        simpa using hmethod
    case s_req_url0 =>
      split_ifs with hspace htext
      · exact .err _
      · exact .err _
      · refine .assert (.begin hcb (.next ?_))
        rintro t ⟨⟩
        exact ⟨by simpa using htext, by simpa using hspace⟩
    case s_req_url =>
      split_ifs with hspace htext
      · exact .piece
      · exact .err _
      · refine .next fun t ht => ?_
        rw [hcb] at ht
        cases ht
        exact ⟨by simpa using htext, by simpa using hspace⟩
    case s_res_reason0 =>
      split_ifs with hcr htext
      · exact .idle hcb
      · exact .err _
      · refine .assert (.begin hcb (.next ?_))
        rintro t ⟨⟩
        change is_text ch = true
        simpa using htext
    case s_res_reason =>
      split_ifs with hcr htext
      · exact .piece
      · exact .err _
      · refine .next fun t ht => ?_
        rw [hcb] at ht
        cases ht
        change is_text ch = true
        simpa using htext
    case s_req_lf =>
      split_ifs
      · exact .err _
      · exact .emit trivial (by simp) (.idle hcb)
    case s_res_line_done => exact .emit trivial (by simp) (lettered_header_name0 hcb)
    case s_header_name0 => exact lettered_header_name0 hcb
    case s_header_name => exact lettered_header_name hcb
    case s_header_value0 =>
      unfold header_value0
      split_ifs
      · exact .idle hcb
      · exact .idle hcb
      · exact .assert (.begin (cb_value_begins.trans hcb) (lettered_header_value rfl))
    case s_header_value => exact lettered_header_value hcb
    case s_header_value0_almost_done =>
      unfold header_value0_almost_done
      split_ifs
      · exact .idle hcb
      · exact .err _
      · refine .assert (.emit ?_ (by simp) (lettered_header_name0 hcb))
        intro b hb
        cases hb
    case s_header_value_almost_done =>
      unfold header_value_almost_done
      split_ifs
      · refine .emit ?_ (by simp) (.idle hcb)
        intro b hb
        rw [List.mem_singleton.mp hb]
        decide
      · exact lettered_header_name0 hcb
    case s_header_value_unfold => exact .assert (.begin hcb (lettered_header_value rfl))
    case s_headers_almost_done => exact lettered_headers_almost_done isRequest what hcb
    case s_headers_done => exact lettered_headers_done isRequest hcb
    case s_body_identity0 => exact .assert (.begin hcb (lettered_body_identity n rfl))
    case s_body_identity => exact lettered_body_identity n hcb
    case s_body_identity_eof0 => exact .assert (.begin hcb (.skip n (.body rfl)))
    case s_body_identity_eof => exact .skip n (.body hcb)
    case s_chunk_data0 => exact .assert (.begin hcb (lettered_chunk_data n rfl))
    case s_chunk_data => exact lettered_chunk_data n hcb
    case s_chunk_data_cr =>
      split_ifs
      · exact .err _
      · exact .piece
    case s_chunk_size0 =>
      cases unhex ch with
      | none => exact .err _
      | some v => exact .idle hcb
    case s_chunk_size => exact lettered_chunk_size hcb
    case s_chunk_ext_name0 | s_chunk_ext_name | s_chunk_ext_val | s_chunk_size_lf =>
      split_ifs
      all_goals first
        | exact .err _
        | exact .idle hcb
    case s_complete => exact lettered_complete (.inl hcb)
    case s_restart =>
      split
      · exact .emit (hresets hs) (by simp) (lettered_start _)
      · exact .err _
    all_goals first
      | exact lettered_expect _ _ hcb
      | exact lettered_digit _ hcb

end

/-- In every state the machine gathers the letters of its piece, and nothing else. -/
theorem lettered {resets : Prop} (isRequest : Bool) (what : body_what) :
    (machine isRequest what).Lettered (fun c => c.Sound ∧ (c.s_ = .s_restart → resets)) Letter
      (Sober resets) where
  gathers c ch d hc h := (lettered_turn isRequest what 1 hc.1.gathers hc.2).gathers d h
  last c ch d hc h t ht := by
    obtain rfl := (lettered_turn isRequest what 1 hc.1.gathers hc.2).last d h t ht
    trivial
  calls c ch d left hc h g hg := by
    rcases hg with hg | hg <;> exact (lettered_turn isRequest what 1 hc.1.gathers hc.2).calls _ hg

end taraxacum.http.basic_parser_v1
