import Taraxacum.Push.Octets
import Taraxacum.Http.Parser.Basic

open json exec push

namespace taraxacum.http.basic_parser_v1

/-- Whom the parser gathers octets for in each state. -/
def collects : state → Option pmf_t
  | .s_req_method => some .call_on_method
  | .s_req_url => some .call_on_uri
  | .s_res_reason => some .call_on_reason
  | .s_header_name => some .call_on_field
  | .s_header_value => some .call_on_value
  | .s_body_identity | .s_body_identity_eof | .s_chunk_data | .s_chunk_data_cr => some .call_on_body
  | _ => none

/-- `cb_` goes with the state, unless the parser is dead. -/
def Gathers (c : basic_parser_v1) : Prop := c.s_ = .s_dead ∨ c.cb_ = collects c.s_

def machine (isRequest : Bool) (what : body_what) :
    Machine basic_parser_v1 UInt8 pmf_t callback parse_error where
  turn := turn isRequest what
  gathers := cb_
  dead c := { c with s_ := .s_dead }

/-- A turn that starts while `t` is gathered for: what it does to that, how many octets it passes
    before the loop's own step, and that the loop ends exactly when the message is complete. -/
def Flows (t : Option pmf_t) (x : Turn (basic_parser_v1 × Bool)) : Prop :=
  ∀ c left, x.outcome = .returned (c, left) →
    flow t x.events = some c.cb_ ∧ c.cb_ = collects c.s_ ∧
      advances x.events = (if left then 1 else 0) ∧ left = c.complete

section
variable {t : Option pmf_t} {c : basic_parser_v1} {x : Turn (basic_parser_v1 × Bool)}

/-- Nothing is said of a turn that ends with an error. -/
theorem Flows.err (ev : parse_error) : Flows t (err ev c) := by
  intro c' left h
  cases h

theorem Flows.of_none (hcb : c.cb_ = none) (hx : Flows none x) : Flows c.cb_ x := by rwa [hcb]

/-- A turn that goes on gathers for the state it goes on in. -/
theorem Flows.next (hcb : c.cb_ = t) (ht : t = collects c.s_) (hs : c.complete = false) :
    Flows t (pure (c, false)) := by
  rintro c' left ⟨⟩
  exact ⟨congrArg some hcb.symm, hcb.trans ht, rfl, hs.symm⟩

/-- A callback is no piece. -/
theorem Flows.call {g : callback} (hx : Flows none x) : Flows none (Exec.emit (.call g) >>= fun _ => x) :=
  fun c left h => hx c left h

theorem Flows.callUnchecked {g : callback} (hx : Flows none x) :
    Flows none (Exec.emit (.callUnchecked g) >>= fun _ => x) :=
  fun c left h => hx c left h

theorem Flows.assert {b : Bool} (hx : b = true → Flows t x) : Flows t (assert b >>= fun _ => x) := by
  cases b with
  | true =>
    have hbind : (basic_parser_v1.assert true >>= fun _ => x) = x := by
      rw [basic_parser_v1.assert, if_pos rfl, pure_bind]
    rw [hbind]
    exact hx rfl
  | false =>
    intro c left h
    cases h

/-- Ending a piece hands it over, if one was gathered. -/
theorem cb_none (c : basic_parser_v1) :
    cb none c = match c.cb_ with
      | some t => ⟨[.piece t], .returned { c with cb_ := none }⟩
      | none => pure { c with cb_ := none } := by
  unfold cb
  cases c.cb_ <;> rfl

/-- A piece begins where none was gathered. -/
theorem cb_some {c : basic_parser_v1} (hcb : c.cb_ = none) (t : pmf_t) :
    cb (some t) c = ⟨[.begin t], .returned { c with cb_ := some t }⟩ := by
  unfold cb
  rw [hcb]
  rfl

/-- What has been gathered is handed over. -/
theorem Flows.piece {f : basic_parser_v1 → Turn (basic_parser_v1 × Bool)} (hcb : c.cb_ = t)
    (hf : Flows none (f { c with cb_ := none })) : Flows t (cb none c >>= f) := by
  subst hcb
  rw [cb_none]
  intro c' left h
  cases hcb : c.cb_ with
  | none =>
    rw [hcb] at h
    exact hf c' left h
  | some t =>
    rw [hcb] at h
    obtain ⟨hflow, hrest⟩ := hf c' left h
    refine ⟨?_, hrest⟩
    change flow (some t) (.piece t :: (f { c with cb_ := none }).events) = some c'.cb_
    rwa [flow, if_pos rfl]

/-- What begins a piece gathers for it from the next octet on. -/
theorem Flows.begin {f : basic_parser_v1 → Turn (basic_parser_v1 × Bool)} {t : pmf_t} (hcb : c.cb_ = none)
    (hf : Flows (some t) (f { c with cb_ := some t })) : Flows none (cb (some t) c >>= f) := by
  rw [cb_some hcb]
  exact fun c' left h => hf c' left h

end

/-- A step that only looks at what has been recognised of a field. -/
structure Recognises (c : basic_parser_v1) (x : Turn basic_parser_v1) : Prop where
  events : x.events = []
  keeps : ∀ c', x.outcome = .returned c' → c'.cb_ = c.cb_ ∧ c'.s_ = c.s_

section
variable {c : basic_parser_v1}

/-- Nothing is said of what is refused. -/
theorem Recognises.err {d : basic_parser_v1} (ev : parse_error) : Recognises c (err ev d) := by
  refine ⟨rfl, ?_⟩
  intro c' h
  cases h

/-- A character that only changes what was recognised. -/
theorem Recognises.pure {d : basic_parser_v1} (hcb : d.cb_ = c.cb_) (hs : d.s_ = c.s_) :
    Recognises c (pure d) := by
  refine ⟨rfl, ?_⟩
  rintro c' ⟨⟩
  exact ⟨hcb, hs⟩

theorem Recognises.ite {p : Prop} [Decidable p] {x y : Turn basic_parser_v1} (hx : Recognises c x)
    (hy : Recognises c y) : Recognises c (if p then x else y) := by
  split
  · exact hx
  · exact hy

/-- Comparing a name gathers nothing of its own. -/
theorem recognises_matching (str : Bytes) (ch : UInt8) (missed matched : field_state) :
    Recognises c (matching str ch missed matched c) := by
  unfold matching
  dsimp only
  cases str[c.pos_ + 1]? with
  | none =>
    refine ⟨rfl, ?_⟩
    intro c' h
    cases h
  | some want => exact .ite (.pure rfl rfl) (.ite (.pure rfl rfl) (.pure rfl rfl))

theorem recognises_connection_option (set : parse_flag → parse_flag) (ows : field_state) (ch : UInt8) :
    Recognises c (connection_option set ows ch c) :=
  .ite (.pure rfl rfl) (.ite (.pure rfl rfl) (.ite (.pure rfl rfl) (.err _)))

theorem recognises_connection_option_ows (set : parse_flag → parse_flag) (ch : UInt8) :
    Recognises c (connection_option_ows set ch c) :=
  .ite (.pure rfl rfl) (.ite (.pure rfl rfl) (.err _))

/-- A character of a name goes on gathering for it. -/
theorem recognises_name_char (ch : UInt8) : Recognises c (name_char ch c) := by
  unfold name_char
  cases hfs : c.fs_
  case h_matching_content_length =>
    obtain ⟨hevents, hkeeps⟩ :=
      @recognises_matching c parser_str.content_length ch .h_general .h_content_length0
    cases ho : (matching parser_str.content_length ch .h_general .h_content_length0 c).outcome with
    | returned d =>
      obtain ⟨hcb, hs⟩ := hkeeps d ho
      constructor
      · rw [Exec.bind_events_of_returned ho, hevents]
        split <;> rfl
      · intro c' h
        rw [Exec.bind_outcome_of_returned ho] at h
        split at h <;> cases h
        exact ⟨hcb, hs⟩
    | threw | aborted | undefined =>
      constructor
      · simp [Exec.bind_def, Exec.bind, ho, hevents]
      · intro c' h
        simp [Exec.bind_def, Exec.bind, ho] at h
  all_goals first
    | exact .pure rfl rfl
    | exact recognises_matching ..

theorem recognises_value_char (ch : UInt8) : Recognises c (value_char ch c) := by
  unfold value_char
  cases hfs : c.fs_
  case h_connection | h_content_length0 | h_content_length | h_content_length_ows | h_transfer_encoding |
      h_matching_transfer_encoding_general | h_transfer_encoding_chunked =>
    repeat' first
      | exact .pure rfl rfl
      | exact .err _
      | apply Recognises.ite
  all_goals first
    | exact .pure rfl rfl
    | exact recognises_matching ..
    | exact recognises_connection_option ..
    | exact recognises_connection_option_ows ..

end

section
variable {c : basic_parser_v1}

/-- A character that is only recognised goes on gathering what was gathered. -/
theorem Flows.recognised {x : Turn basic_parser_v1} (hx : Recognises c x) (hc : c.cb_ = collects c.s_)
    (hs : c.complete = false) : Flows c.cb_ (x >>= fun c => pure (c, false)) := by
  intro c' left h
  obtain ⟨d, hd, hpure⟩ := Exec.bind_eq_returned_iff.mp h
  obtain ⟨rfl, rfl⟩ : d = c' ∧ false = left := by simpa using hpure
  obtain ⟨hcb, hstate⟩ := hx.keeps d hd
  have hevents : (x >>= fun c => pure (c, false)).events = [] := by
    rw [Exec.bind_pure_events, hx.events]
  rw [hevents, hcb, hstate]
  exact ⟨rfl, hc, rfl, by rw [complete, hstate]; exact hs.symm⟩

/-- The end of a message hands over what was gathered. -/
theorem flows_complete {t : Option pmf_t} (ht : c.cb_ = t) : Flows t (message_complete c) := by
  subst ht
  intro c' left h
  rw [message_complete, cb_none] at h ⊢
  cases hcb : c.cb_ with
  | none =>
    rw [hcb] at h
    cases h
    exact ⟨rfl, rfl, rfl, rfl⟩
  | some t =>
    rw [hcb] at h
    cases h
    refine ⟨?_, rfl, rfl, rfl⟩
    change flow (some t) [.piece t, .call .on_complete] = some none
    simp [flow]

/-- The end of the header begins a body, if there is one. -/
theorem flows_headers_done (isRequest : Bool) (hcb : c.cb_ = none) : Flows none (headers_done isRequest c) := by
  refine .assert fun _ => ?_
  split_ifs
  · exact flows_complete hcb
  · exact flows_complete hcb
  · exact .next hcb rfl rfl
  · exact .next hcb rfl rfl
  · exact flows_complete hcb
  · exact .next hcb rfl rfl

theorem flows_headers_almost_done (isRequest : Bool) (what : body_what) (ch : UInt8) (hcb : c.cb_ = none) :
    Flows none (headers_almost_done isRequest what ch c) := by
  unfold headers_almost_done
  split_ifs
  · exact .err _
  · exact flows_complete hcb
  · exact .err _
  · apply Flows.call
    cases what <;> exact flows_headers_done isRequest hcb

/-- The first character of a name is looked at without a callback. -/
@[simp] theorem cb_name_char0 (ch : UInt8) : (name_char0 ch c).cb_ = c.cb_ := by
  unfold name_char0
  split_ifs <;> rfl

@[simp] theorem cb_value_begins : (value_begins c).cb_ = c.cb_ := by
  unfold value_begins
  split <;> rfl

/-- A name begins, or the header ends. -/
theorem flows_header_name0 (ch : UInt8) (hcb : c.cb_ = none) : Flows none (header_name0 ch c) := by
  unfold header_name0
  split_ifs
  · exact .next hcb rfl rfl
  · exact .err _
  · exact .assert fun _ => .begin ((cb_name_char0 _).trans hcb) (.next rfl rfl rfl)

/-- A name goes on, or is handed over at its colon. -/
theorem flows_header_name (ch : UInt8) (hs : c.s_ = .s_header_name) (hcb : c.cb_ = collects c.s_) :
    Flows c.cb_ (header_name ch c) := by
  unfold header_name
  split_ifs
  · exact .recognised (recognises_name_char _) hcb (by rw [complete, hs]; rfl)
  · exact .piece rfl (.next rfl rfl rfl)
  · exact .err _

/-- A value goes on, or is handed over at the end of its line. -/
theorem flows_header_value (ch : UInt8) (hs : c.s_ = .s_header_value) (hcb : c.cb_ = collects c.s_) :
    Flows c.cb_ (header_value ch c) := by
  unfold header_value
  split_ifs
  · exact .piece rfl (.next rfl rfl rfl)
  · exact .err _
  · exact .recognised (recognises_value_char _) hcb (by rw [complete, hs]; rfl)

/-- A value begins, or blanks before it are passed. -/
theorem flows_header_value0 (ch : UInt8) (hs : c.s_ = .s_header_value0) (hcb : c.cb_ = none) :
    Flows none (header_value0 ch c) := by
  unfold header_value0
  split_ifs
  · exact .next hcb (by rw [hs]; rfl) (by rw [complete, hs]; rfl)
  · exact .next hcb rfl rfl
  · refine .assert fun _ => .begin (cb_value_begins.trans hcb) ?_
    exact flows_header_value ch rfl rfl

/-- Nothing is gathered at the end of an empty line of a value. -/
theorem flows_header_value0_almost_done (ch : UInt8) (hcb : c.cb_ = none) :
    Flows none (header_value0_almost_done ch c) := by
  unfold header_value0_almost_done
  split_ifs
  · exact .next hcb rfl rfl
  · exact .err _
  · exact .assert fun _ => .call (flows_header_name0 ch hcb)

/-- Nothing is gathered at the end of a value's line. -/
theorem flows_header_value_almost_done (ch : UInt8) (hcb : c.cb_ = none) :
    Flows none (header_value_almost_done ch c) := by
  unfold header_value_almost_done
  split_ifs
  · exact .callUnchecked (.next hcb rfl rfl)
  · exact flows_header_name0 ch hcb

/-- Nothing is gathered in the blanks before a value goes on. -/
theorem flows_header_value_unfold (ch : UInt8) (hcb : c.cb_ = none) :
    Flows none (header_value_unfold ch c) := by
  refine .assert fun _ => .begin hcb ?_
  exact flows_header_value ch rfl rfl

/-- With one octet left, a turn in a body passes it. -/
theorem skip_one : skip 1 = pure () := rfl

/-- One octet of a body goes on with it, or ends it with the message. -/
theorem flows_body_identity (hs : c.s_ = .s_body_identity) (hcb : c.cb_ = collects c.s_) :
    Flows c.cb_ (body_identity 1 c) := by
  refine .assert fun hlength => ?_
  have hpos : c.content_length_ ≠ 0 := by
    rw [Bool.and_eq_true] at hlength
    simpa using hlength.1
  have hone : (if 1 < c.content_length_ then 1 else c.content_length_) = 1 := by
    split <;> omega
  rw [hone, skip_one, pure_bind]
  split
  · exact flows_complete rfl
  · exact .next rfl hcb (by rw [complete, hs]; rfl)

/-- One octet of a chunk goes on with it, or ends it. -/
theorem flows_chunk_data (hs : c.s_ = .s_chunk_data) (hcb : c.cb_ = collects c.s_) :
    Flows c.cb_ (chunk_data 1 c) := by
  by_cases hpos : c.content_length_ = 0
  · have hundefined : chunk_data 1 c = Exec.undefinedBehaviour := by
      simp only [chunk_data, hpos]
      rfl
    rw [hundefined]
    intro c' left h
    cases h
  · have hone : (if 1 < c.content_length_ then 1 else c.content_length_) = 1 := by
      split <;> omega
    simp only [chunk_data, hone, skip_one, pure_bind]
    split
    · exact .next rfl (by rw [hcb, hs]; rfl) rfl
    · exact .next rfl hcb (by rw [complete, hs]; rfl)

end

section
variable {c : basic_parser_v1}

/-- A state that waits for one octet gathers nothing. -/
theorem flows_expect {next : state} (ch want : UInt8) (ev : parse_error) (hcb : c.cb_ = none)
    (hnext : collects next = none) (hs : ({ c with s_ := next } : basic_parser_v1).complete = false) :
      Flows none (expect ch want ev next c) := by
  unfold expect
  split
  · exact .err _
  · exact .next hcb hnext.symm hs

theorem flows_digit {next : basic_parser_v1} (ch : UInt8) (ev : parse_error) (hcb : next.cb_ = none)
    (hnext : collects next.s_ = none) (hs : next.complete = false) : Flows none (digit ch ev c next) := by
  unfold digit
  split
  · exact .err _
  · exact .next hcb hnext.symm hs

/-- The method begins with its first character. -/
theorem flows_req_method0 (ch : UInt8) (hcb : c.cb_ = none) : Flows none (req_method0 ch c) := by
  unfold req_method0
  split
  · exact .err _
  · exact .call (.assert fun _ => .begin hcb (.next rfl rfl rfl))

/-- Before a message nothing is gathered. -/
theorem flows_start (isRequest : Bool) (ch : UInt8) : Flows none (start isRequest ch c) := by
  unfold start
  dsimp only
  split_ifs
  · exact flows_req_method0 ch rfl
  · exact .err _
  · exact .call (.next rfl rfl rfl)

/-- The size of a chunk is gathered by nobody. -/
theorem flows_chunk_size (ch : UInt8) (hs : c.s_ = .s_chunk_size) (hcb : c.cb_ = none) :
    Flows none (chunk_size ch c) := by
  unfold chunk_size
  split_ifs
  · exact .next hcb rfl rfl
  · exact .next hcb rfl rfl
  · cases unhex ch <;> exact .err _
  · cases unhex ch with
    | none => exact .err _
    | some v => exact .next hcb (by rw [hs]; rfl) (by rw [complete, hs]; rfl)

/-- Every turn with one octet left, from a state that `cb_` goes with. -/
theorem flows_turn (isRequest : Bool) (what : body_what) (ch : UInt8) (hc : c.Gathers) :
    Flows c.cb_ (turn isRequest what c 1 ch) := by
  rcases hc with hdead | hcb
  · rw [turn, hdead]
    exact .err _
  · rw [turn]
    cases hs : c.s_ <;> rw [hs] at hcb <;> dsimp only <;> simp only [collects] at hcb
    case s_dead | s_closed_complete => exact .err _
    case s_header_name => exact flows_header_name ch hs (by rw [hcb, hs]; rfl)
    case s_header_value => exact flows_header_value ch hs (by rw [hcb, hs]; rfl)
    case s_body_identity => exact flows_body_identity hs (by rw [hcb, hs]; rfl)
    case s_chunk_data => exact flows_chunk_data hs (by rw [hcb, hs]; rfl)
    case s_req_method | s_req_url | s_res_reason =>
      split_ifs
      · exact .piece rfl (.next rfl rfl rfl)
      · exact .err _
      · exact .next rfl (by rw [hcb, hs]; rfl) (by rw [complete, hs]; rfl)
    case s_body_identity_eof =>
      rw [skip_one, pure_bind]
      exact .next rfl (by rw [hcb, hs]; rfl) (by rw [complete, hs]; rfl)
    case s_chunk_data_cr =>
      split_ifs
      · exact .err _
      · exact .piece rfl (.next rfl rfl rfl)
    case s_complete => exact flows_complete rfl
    all_goals refine .of_none hcb ?_
    case s_req_start | s_res_start => exact flows_start _ ch
    case s_req_method0 => exact flows_req_method0 ch hcb
    case s_req_url0 | s_res_reason0 =>
      split_ifs
      · first
          | exact .err _
          | exact .next hcb rfl rfl
      · exact .err _
      · exact .assert fun _ => .begin hcb (.next rfl rfl rfl)
    case s_req_lf =>
      split_ifs
      · exact .err _
      · exact .call (.next hcb rfl rfl)
    case s_res_line_done => exact .call (flows_header_name0 ch hcb)
    case s_header_name0 => exact flows_header_name0 ch hcb
    case s_header_value0 => exact flows_header_value0 ch hs hcb
    case s_header_value0_almost_done => exact flows_header_value0_almost_done ch hcb
    case s_header_value_almost_done => exact flows_header_value_almost_done ch hcb
    case s_header_value_unfold => exact flows_header_value_unfold ch hcb
    case s_headers_almost_done => exact flows_headers_almost_done isRequest what ch hcb
    case s_headers_done => exact flows_headers_done isRequest hcb
    case s_body_identity0 =>
      refine .assert fun _ => .begin hcb ?_
      exact flows_body_identity rfl rfl
    case s_chunk_data0 =>
      refine .assert fun _ => .begin hcb ?_
      exact flows_chunk_data rfl rfl
    case s_body_identity_eof0 =>
      refine .assert fun _ => .begin hcb ?_
      rw [skip_one, pure_bind]
      exact .next rfl rfl rfl
    case s_chunk_size0 =>
      cases unhex ch with
      | none => exact .err _
      | some v => exact .next hcb rfl rfl
    case s_chunk_size => exact flows_chunk_size ch hs hcb
    case s_chunk_ext_name0 =>
      split_ifs
      · exact .err _
      · exact .next hcb rfl rfl
    case s_chunk_ext_name | s_chunk_ext_val | s_chunk_size_lf =>
      split_ifs
      all_goals first
        | exact .err _
        | exact .next hcb rfl rfl
        | exact .next hcb (by rw [hs]; rfl) (by rw [complete, hs]; rfl)
    case s_restart =>
      split
      · exact .callUnchecked (flows_start _ ch)
      · exact .err _
    all_goals first
      | exact flows_expect _ _ _ hcb rfl rfl
      | exact flows_digit _ _ hcb rfl rfl

end

end taraxacum.http.basic_parser_v1
