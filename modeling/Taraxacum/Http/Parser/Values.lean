import Taraxacum.Http.Parser.Control

open json exec push

namespace taraxacum.http.basic_parser_v1

/-- A field's name has been read, and its value has not ended. -/
def value_state : state → Bool
  | .s_header_value0 | .s_header_value0_lf | .s_header_value0_almost_done | .s_header_value | .s_header_value_lf
  | .s_header_value_almost_done | .s_header_value_unfold => true
  | _ => false

def InValue (c : basic_parser_v1) : Prop := value_state c.s_ = true ∨ c.cb_ = some .call_on_value

/-- A part of a value is handed over. -/
def hands_value : Action pmf_t callback → Bool
  | .piece .call_on_value | .call (.on_value _) | .callUnchecked (.on_value _) => true
  | _ => false

/-- What happens in the turns within a value: parts of it are handed over, and something may begin. -/
def Within (a : Action pmf_t callback) : Prop := hands_value a = true ∨ ∃ t, a = .begin t

/-- A turn that neither begins nor continues a value. -/
structure Outside (x : Turn (basic_parser_v1 × Bool)) : Prop where
  emits : x.Emits fun a => hands_value a = false
  returned : ∀ c left, x.outcome = .returned (c, left) → ¬c.InValue
  threw : ∀ e c, x.outcome = .threw (e, c) → c.s_ = .s_dead ∧ c.cb_ ≠ some .call_on_value

section
variable {c : basic_parser_v1} {x : Turn (basic_parser_v1 × Bool)}

/-- An error outside of values leaves the parser outside of them. -/
theorem Outside.err (ev : parse_error) (hc : c.cb_ ≠ some .call_on_value) : Outside (err ev c) := by
  refine ⟨.raise _, ?_, ?_⟩
  · intro c' left h
    cases h
  · rintro e c' ⟨⟩
    exact ⟨rfl, hc⟩

theorem Outside.next {left : Bool} (hs : value_state c.s_ = false) (hcb : c.cb_ ≠ some .call_on_value) :
    Outside (pure (c, left)) := by
  refine ⟨.pure _, ?_, ?_⟩
  · rintro c' left' ⟨⟩ (h | h)
    · rw [hs] at h
      cases h
    · exact hcb h
  · intro e c' h
    cases h

/-- A turn is outside of values if its parts are. -/
theorem Outside.bind {α : Type} {y : Turn α} {f : α → Turn (basic_parser_v1 × Bool)}
    (hy : y.Emits fun a => hands_value a = false) (hreturned : ∀ e c, y.outcome ≠ .threw (e, c))
    (hf : ∀ a, y.outcome = .returned a → Outside (f a)) : Outside (y >>= f) := by
  refine ⟨hy.bind fun a ha => (hf a ha).emits, ?_, ?_⟩
  · intro c' left h
    obtain ⟨a, ha, hrest⟩ := Exec.bind_eq_returned_iff.mp h
    exact (hf a ha).returned c' left hrest
  · intro e c' h
    rcases Exec.bind_eq_threw_iff.mp h with hy | ⟨a, ha, hrest⟩
    · exact absurd hy (hreturned e c')
    · exact (hf a ha).threw e c' hrest

/-- A callback that hands over no part of a value. -/
theorem Outside.emit {a : Action pmf_t callback} (ha : hands_value a = false) (hx : Outside x) :
    Outside (Exec.emit a >>= fun _ => x) := by
  refine .bind (.emit ha) ?_ fun _ _ => hx
  intro e c h
  cases h

/-- An assertion hands over nothing. -/
theorem Outside.assert {b : Bool} (hx : Outside x) : Outside (assert b >>= fun _ => x) := by
  refine .bind ?_ ?_ fun _ _ => hx
  · cases b <;> exact .of_events_eq_nil rfl
  · intro e c h
    cases b <;> cases h

/-- Passing octets hands over nothing. -/
theorem skip_emits (n : Nat) : (skip n).Emits fun a => hands_value a = false := by
  cases n with
  | zero => exact .of_events_eq_nil rfl
  | succ n =>
    intro a ha
    rw [List.eq_of_mem_replicate ha]
    rfl

theorem Outside.skip (n : Nat) (hx : Outside x) : Outside (skip n >>= fun _ => x) := by
  refine .bind (skip_emits n) ?_ fun _ _ => hx
  intro e c h
  cases n <;> cases h

/-- What was gathered outside of a value is no part of one. -/
theorem Outside.piece {f : basic_parser_v1 → Turn (basic_parser_v1 × Bool)} (hc : c.cb_ ≠ some .call_on_value)
    (hf : Outside (f { c with cb_ := none })) : Outside (cb none c >>= f) := by
  rw [cb_none]
  cases hcb : c.cb_ with
  | none =>
    rw [pure_bind]
    exact hf
  | some t =>
    refine .bind ?_ ?_ ?_
    · intro a ha
      obtain rfl : a = .piece t := by simpa using ha
      cases t with
      | call_on_value => exact absurd hcb hc
      | call_on_method | call_on_uri | call_on_reason | call_on_field | call_on_body => rfl
    · intro e c' h
      cases h
    · rintro c' ⟨⟩
      exact hf

/-- Something other than a value begins. -/
theorem Outside.begin {t : pmf_t} {f : basic_parser_v1 → Turn (basic_parser_v1 × Bool)} (hcb : c.cb_ = none)
    (hf : Outside (f { c with cb_ := some t })) : Outside (cb (some t) c >>= f) := by
  rw [cb_some hcb]
  refine .bind ?_ ?_ ?_
  · intro a ha
    obtain rfl : a = .begin t := by simpa using ha
    rfl
  · intro e c' h
    cases h
  · rintro c' ⟨⟩
    exact hf

/-- The end of a message is outside of values, as are all the turns of a start line, of a name and
    of a body. -/
theorem outside_complete (hc : c.cb_ ≠ some .call_on_value) : Outside (message_complete c) := by
  refine .emit rfl (.piece hc (.emit rfl (.next rfl ?_)))
  simp

theorem outside_headers_done (isRequest : Bool) (hcb : c.cb_ = none) : Outside (headers_done isRequest c) := by
  have hc : c.cb_ ≠ some .call_on_value := by simp [hcb]
  refine .assert ?_
  split_ifs
  · exact outside_complete hc
  · exact outside_complete hc
  · exact .next rfl hc
  · exact .next rfl hc
  · exact outside_complete hc
  · exact .next rfl hc

theorem outside_headers_almost_done (isRequest : Bool) (what : body_what) (ch : UInt8) (hcb : c.cb_ = none) :
    Outside (headers_almost_done isRequest what ch c) := by
  have hc : c.cb_ ≠ some .call_on_value := by simp [hcb]
  unfold headers_almost_done
  split_ifs
  · exact .err _ hc
  · exact outside_complete hc
  · exact .err _ hc
  · refine .emit rfl ?_
    cases what <;> exact outside_headers_done isRequest hcb

theorem outside_header_name0 (ch : UInt8) (hcb : c.cb_ = none) : Outside (header_name0 ch c) := by
  have hc : c.cb_ ≠ some .call_on_value := by simp [hcb]
  unfold header_name0
  split_ifs
  · exact .next rfl hc
  · exact .err _ hc
  · refine .assert (.begin ((cb_name_char0 _).trans hcb) (.next rfl ?_))
    simp

theorem outside_req_method0 (ch : UInt8) (hcb : c.cb_ = none) : Outside (req_method0 ch c) := by
  unfold req_method0
  split
  · exact .err _ (by simp [hcb])
  · refine .emit rfl (.assert (.begin hcb (.next rfl ?_)))
    simp

theorem outside_start (isRequest : Bool) (ch : UInt8) : Outside (start isRequest ch c) := by
  unfold start
  dsimp only
  split_ifs
  · exact outside_req_method0 ch rfl
  · refine .err _ ?_
    simp
  · refine .emit rfl (.next rfl ?_)
    simp

theorem outside_expect {next : state} (ch want : UInt8) (ev : parse_error) (hc : c.cb_ ≠ some .call_on_value)
    (hnext : value_state next = false) : Outside (expect ch want ev next c) := by
  unfold expect
  split
  · exact .err _ hc
  · exact .next hnext hc

theorem outside_digit {next : basic_parser_v1} (ch : UInt8) (ev : parse_error)
    (hc : c.cb_ ≠ some .call_on_value)
    (hcb : next.cb_ = c.cb_) (hnext : value_state next.s_ = false) : Outside (digit ch ev c next) := by
  unfold digit
  split
  · exact .err _ hc
  · exact .next hnext (by rwa [hcb])

theorem outside_body_identity (n : Nat) (hs : value_state c.s_ = false) (hc : c.cb_ ≠ some .call_on_value) :
    Outside (body_identity n c) := by
  unfold body_identity
  generalize (if n < c.content_length_ then n else c.content_length_) = k
  refine .assert (.skip k ?_)
  split
  · exact outside_complete hc
  · exact .next hs hc

theorem outside_chunk_data (n : Nat) (hs : value_state c.s_ = false) (hc : c.cb_ ≠ some .call_on_value) :
    Outside (chunk_data n c) := by
  unfold chunk_data
  generalize (if n < c.content_length_ then n else c.content_length_) = k
  refine .skip k ?_
  split
  · exact .next rfl hc
  · exact .next hs hc

theorem outside_chunk_size (ch : UInt8) (hs : value_state c.s_ = false) (hc : c.cb_ ≠ some .call_on_value) :
    Outside (chunk_size ch c) := by
  unfold chunk_size
  split_ifs
  · exact .next rfl hc
  · exact .next rfl hc
  · cases unhex ch <;> exact .err _ hc
  · cases unhex ch with
    | none => exact .err _ hc
    | some v => exact .next hs hc

/-- The turns outside a value and outside a name. -/
theorem outside_turn (isRequest : Bool) (what : body_what) (n : Nat) (ch : UInt8) (hc : c.Gathers)
    (hvalue : ¬c.InValue) (hname : c.s_ ≠ .s_header_name) : Outside (turn isRequest what c n ch) := by
  have hpiece : c.cb_ ≠ some .call_on_value := fun h => hvalue (.inr h)
  have hstate : value_state c.s_ = false := Bool.eq_false_iff.mpr fun h => hvalue (.inl h)
  rcases hc with hdead | hcb
  · rw [turn, hdead]
    exact .err _ hpiece
  · rw [turn]
    cases hs : c.s_ <;> rw [hs] at hcb hstate <;> dsimp only
    case s_header_name => exact absurd hs hname
    case s_header_value0 | s_header_value0_lf | s_header_value0_almost_done | s_header_value |
        s_header_value_lf |
        s_header_value_almost_done | s_header_value_unfold => cases hstate
    case s_dead | s_closed_complete => exact .err _ hpiece
    case s_req_start | s_res_start => exact outside_start _ ch
    case s_req_method0 => exact outside_req_method0 ch hcb
    case s_req_method | s_req_url | s_res_reason =>
      split_ifs
      · refine .piece hpiece (.next rfl ?_)
        simp
      · exact .err _ hpiece
      · exact .next (by rw [hs]; rfl) hpiece
    case s_req_url0 | s_res_reason0 =>
      split_ifs
      · first
          | exact .err _ hpiece
          | exact .next rfl hpiece
      · exact .err _ hpiece
      · refine .assert (.begin hcb (.next rfl ?_))
        simp
    case s_req_lf =>
      split_ifs
      · exact .err _ hpiece
      · exact .emit rfl (.next rfl hpiece)
    case s_res_line_done => exact .emit rfl (outside_header_name0 ch hcb)
    case s_header_name0 => exact outside_header_name0 ch hcb
    case s_headers_almost_done => exact outside_headers_almost_done isRequest what ch hcb
    case s_headers_done => exact outside_headers_done isRequest hcb
    case s_body_identity0 =>
      refine .assert (.begin hcb (outside_body_identity n rfl ?_))
      simp
    case s_body_identity => exact outside_body_identity n (by rw [hs]; rfl) hpiece
    case s_body_identity_eof0 =>
      refine .assert (.begin hcb (.skip n (.next rfl ?_)))
      simp
    case s_body_identity_eof => exact .skip n (.next (by rw [hs]; rfl) hpiece)
    case s_chunk_data0 =>
      refine .assert (.begin hcb (outside_chunk_data n rfl ?_))
      simp
    case s_chunk_data => exact outside_chunk_data n (by rw [hs]; rfl) hpiece
    case s_chunk_data_cr =>
      split_ifs
      · exact .err _ hpiece
      · refine .piece hpiece (.next rfl ?_)
        simp
    case s_chunk_size0 =>
      cases unhex ch with
      | none => exact .err _ hpiece
      | some v => exact .next rfl hpiece
    case s_chunk_size => exact outside_chunk_size ch (by rw [hs]; rfl) hpiece
    case s_chunk_ext_name0 =>
      split_ifs
      · exact .err _ hpiece
      · exact .next rfl hpiece
    case s_chunk_ext_name | s_chunk_ext_val | s_chunk_size_lf =>
      split_ifs
      all_goals first
        | exact .err _ hpiece
        | exact .next rfl hpiece
        | exact .next (by rw [hs]; rfl) hpiece
    case s_complete => exact outside_complete hpiece
    case s_restart =>
      split
      · exact .emit rfl (outside_start _ ch)
      · exact .err _ hpiece
    all_goals first
      | exact outside_expect _ _ _ hpiece rfl
      | exact outside_digit _ _ hpiece rfl rfl

/-- Comparing a name reports no error. -/
theorem matching_threw {str : Bytes} {ch : UInt8} {missed matched : field_state}
    {e : parse_error × basic_parser_v1} :
    (matching str ch missed matched c).outcome ≠ .threw e := by
  unfold matching
  dsimp only
  split
  · simp
  · split_ifs <;> simp

/-- A name that is no name kills the parser, which has gathered for the name. -/
theorem name_char_threw {ch : UInt8} {e : parse_error} {d : basic_parser_v1}
    (h : (name_char ch c).outcome = .threw (e, d)) : d.s_ = .s_dead ∧ d.cb_ = c.cb_ := by
  unfold name_char at h
  cases hfs : c.fs_ <;> rw [hfs] at h
  case h_matching_content_length =>
    rcases Exec.bind_eq_threw_iff.mp h with h | ⟨a, ha, h⟩
    · exact absurd h matching_threw
    · obtain ⟨hcb, -⟩ := (recognises_matching (c := c) parser_str.content_length ch .h_general
        .h_content_length0).keeps a ha
      split at h <;> cases h
      exact ⟨rfl, hcb⟩
  all_goals first
    | cases h
    | exact absurd h matching_threw

/-- In a name: it goes on, or it is handed over, or it is none. -/
theorem header_name_cases {ch : UInt8} (hcb : c.cb_ = some .call_on_field) :
    header_name ch c = ⟨[.piece .call_on_field],
      .returned ({ c with cb_ := none, s_ := .s_header_value0 }, false)⟩ ∨
      (header_name ch c).events = [] ∧
      (∀ d left, (header_name ch c).outcome = .returned (d, left) → d.cb_ = c.cb_ ∧ d.s_ = c.s_) ∧
      ∀ e d, (header_name ch c).outcome = .threw (e, d) → d.s_ = .s_dead ∧ d.cb_ = c.cb_ := by
  unfold header_name
  split_ifs
  · right
    refine ⟨?_, ?_, ?_⟩
    · rw [Exec.bind_pure_events, (recognises_name_char _).events]
    · intro d left h
      obtain ⟨a, ha, hpure⟩ := Exec.bind_eq_returned_iff.mp h
      cases hpure
      obtain ⟨hcb, hs⟩ := (recognises_name_char _).keeps d ha
      exact ⟨hcb, hs⟩
    · intro e d h
      rcases Exec.bind_eq_threw_iff.mp h with h | ⟨a, -, h⟩
      · exact name_char_threw h
      · cases h
  · left
    rw [cb_none, hcb]
    rfl
  · right
    refine ⟨rfl, ?_, ?_⟩
    · intro d left h
      cases h
    · rintro e d ⟨⟩
      exact ⟨rfl, rfl⟩

/-- Where nothing is gathered a piece only begins. -/
theorem within_begin (t : pmf_t) (hcb : c.cb_ = none) : (cb (some t) c).Emits Within := by
  rw [cb_some hcb]
  intro a ha
  exact .inr ⟨t, by simpa using ha⟩

theorem within_assert (b : Bool) : (assert b).Emits Within := by
  cases b <;> exact .of_events_eq_nil rfl

/-- The state before a name hands over nothing but what begins. -/
theorem within_header_name0 (ch : UInt8) (hcb : c.cb_ = none) : (header_name0 ch c).Emits Within := by
  unfold header_name0
  split_ifs
  · exact .pure _
  · exact .raise _
  · refine (within_assert _).bind fun _ _ => ?_
    exact (within_begin _ ((cb_name_char0 _).trans hcb)).bind fun _ _ => .pure _

/-- Within a value only parts of it are handed over. -/
theorem within_header_value (ch : UInt8) (hcb : c.cb_ = some .call_on_value) :
    (header_value ch c).Emits Within := by
  unfold header_value
  split_ifs
  · rw [cb_none, hcb]
    intro a ha
    obtain rfl : a = .piece .call_on_value := by simpa [Exec.bind_def, Exec.bind] using ha
    exact .inl rfl
  · exact .raise _
  · refine .of_events_eq_nil ?_
    rw [Exec.bind_pure_events, (recognises_value_char ch).events]

/-- The turns within a value. -/
theorem within_turn (isRequest : Bool) (what : body_what) (n : Nat) (ch : UInt8) (hc : c.Gathers)
    (hvalue : c.InValue) : (turn isRequest what c n ch).Emits Within := by
  rcases hc with hdead | hcb
  · rw [turn, hdead]
    exact .raise _
  · have hstate : value_state c.s_ = true := by
      rcases hvalue with h | h
      · exact h
      · rw [hcb] at h
        cases hs : c.s_ <;> rw [hs] at h <;> cases h
        rfl
    rw [turn]
    cases hs : c.s_ <;> rw [hs] at hcb hstate <;> dsimp only
    case s_header_value0 =>
      unfold header_value0
      split_ifs
      · exact .pure _
      · exact .pure _
      · refine (within_assert _).bind fun _ _ => (within_begin _ (cb_value_begins.trans hcb)).bind
          fun d hd => ?_
        rw [cb_some (cb_value_begins.trans hcb)] at hd
        cases hd
        exact within_header_value ch rfl
    case s_header_value => exact within_header_value ch hcb
    case s_header_value0_lf | s_header_value_lf =>
      unfold expect
      split
      · exact .raise _
      · exact .pure _
    case s_header_value0_almost_done =>
      unfold header_value0_almost_done
      split_ifs
      · exact .pure _
      · exact .raise _
      · refine (within_assert _).bind fun _ _ => ?_
        exact .bind (.emit (.inl rfl)) fun _ _ => within_header_name0 ch hcb
    case s_header_value_almost_done =>
      unfold header_value_almost_done
      split_ifs
      · exact .bind (.emit (.inl rfl)) fun _ _ => .pure _
      · exact within_header_name0 ch hcb
    case s_header_value_unfold =>
      refine (within_assert _).bind fun _ _ => (within_begin _ hcb).bind fun d hd => ?_
      rw [cb_some hcb] at hd
      cases hd
      exact within_header_value ch rfl
    all_goals cases hstate

end

end taraxacum.http.basic_parser_v1
