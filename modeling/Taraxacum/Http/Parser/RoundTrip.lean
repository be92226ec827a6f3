import Taraxacum.Http.Parser.Bodies
import Taraxacum.Http.Parser.Stream

open json exec push

namespace taraxacum.http

namespace parser_v1

/-- The parser once the header has ended: all fields are stored. -/
def headed (p : parser_v1) (version : Nat) : parser_v1 :=
  { p.flushed with m_ := { p.flushed.m_ with version } }

end parser_v1

namespace basic_parser_v1

section
variable {isRequest : Bool} {c c₁ d : basic_parser_v1} {p p₁ : parser_v1} {fs : field_state} {pos : Nat}

/-- The LF that ends the header. -/
theorem turn_header_end {x : Turn (basic_parser_v1 × Bool)} (hs : c.s_ = .s_headers_almost_done)
    (htrailing : c.flags_.trailing = false) (hupgrade : c.flags_.upgrade = false)
    (hboth : (c.flags_.chunked && c.flags_.contentlength) = false)
    (hdone : headers_done isRequest { c with upgrade_ := false, s_ := .s_headers_done } = x) :
    turn isRequest .normal c 1 0x0A =
      ⟨.call (.on_header c.http_major_ c.http_minor_) :: x.events, x.outcome⟩ := by
  have hstate : turn isRequest .normal c 1 0x0A = headers_almost_done isRequest .normal 0x0A c := by
    rw [turn, hs]
  rw [hstate, headers_almost_done, if_neg (by decide), htrailing, if_neg Bool.false_ne_true, hboth,
    if_neg Bool.false_ne_true, hupgrade, Bool.false_and, ← hdone]
  rfl

/-- The empty line after the fields, where a body follows. -/
theorem reads_header_end (hline : AtLine isRequest .normal c₁ p₁ (c.line fs pos) p) (hp : p.AtField)
    (htrailing : c.flags_.trailing = false) (hupgrade : c.flags_.upgrade = false)
    (hboth : (c.flags_.chunked && c.flags_.contentlength) = false)
    (hdone : headers_done isRequest { c.line fs pos with upgrade_ := false, s_ := .s_headers_done } =
      pure (d, false))
    (hd : d.cb_ = none) :
    Reads isRequest .normal crlf c₁ p₁ d (p.headed (10 * c.http_major_ + c.http_minor_)) := by
  have hcall : (parser_v1.sink isRequest).call (.on_header c.http_major_ c.http_minor_) p =
      .returned (p.headed (10 * c.http_major_ + c.http_minor_)) := by
    change parser_v1.call isRequest (.on_header c.http_major_ c.http_minor_) p = _
    rw [parser_v1.call, parser_v1.flush_eq hp]
    rfl
  have hcr : push.octet (machine isRequest .normal) (parser_v1.sink isRequest) c₁ 0x0D p₁ =
      some ({ c.line fs pos with s_ := .s_headers_almost_done }, p, false) := by
    rw [hline 0x0D (by decide)]
    exact octet_eq rfl rfl rfl
  have hlf := @turn_header_end isRequest
    { c.line fs pos with s_ := .s_headers_almost_done } _ rfl htrailing hupgrade
    hboth hdone
  have hacts : eager (parser_v1.sink isRequest) [.call (.on_header c.http_major_ c.http_minor_)] none [0x0A] p =
      some (p.headed (10 * c.http_major_ + c.http_minor_)) := by
    change (value? ((parser_v1.sink isRequest).call (.on_header c.http_major_ c.http_minor_) p)).bind _ = _
    rw [hcall]
    rfl
  have hgather : gather (parser_v1.sink isRequest) d.cb_ [0x0A]
    (p.headed (10 * c.http_major_ + c.http_minor_)) =
      some (p.headed (10 * c.http_major_ + c.http_minor_)) := by
    rw [hd]
    rfl
  exact .cons hcr (.octet (octet_eq hlf hacts hgather))

/-- The empty line after the fields of a message without a body. -/
theorem completes_header_end (hline : AtLine isRequest .normal c₁ p₁ (c.line fs pos) p) (hp : p.AtField)
    (htrailing : c.flags_.trailing = false) (hupgrade : c.flags_.upgrade = false)
    (hboth : (c.flags_.chunked && c.flags_.contentlength) = false)
    (hdone : headers_done isRequest { c.line fs pos with upgrade_ := false, s_ := .s_headers_done } =
      message_complete { c.line fs pos with upgrade_ := false, s_ := .s_complete }) :
    Completes isRequest .normal crlf c₁ p₁ { c.line fs pos with upgrade_ := false, s_ := .s_restart }
      (p.headed (10 * c.http_major_ + c.http_minor_)) := by
  have hcall : (parser_v1.sink isRequest).call (.on_header c.http_major_ c.http_minor_) p =
      .returned (p.headed (10 * c.http_major_ + c.http_minor_)) := by
    change parser_v1.call isRequest (.on_header c.http_major_ c.http_minor_) p = _
    rw [parser_v1.call, parser_v1.flush_eq hp]
    rfl
  have hcr : push.octet (machine isRequest .normal) (parser_v1.sink isRequest) c₁ 0x0D p₁ =
      some ({ c.line fs pos with s_ := .s_headers_almost_done }, p, false) := by
    rw [hline 0x0D (by decide)]
    exact octet_eq rfl rfl rfl
  have hlf := @turn_header_end isRequest
    { c.line fs pos with s_ := .s_headers_almost_done } _ rfl htrailing hupgrade
    hboth hdone
  refine .cons hcr (.octet (octet_last hlf ?_))
  change (value? ((parser_v1.sink isRequest).call (.on_header c.http_major_ c.http_minor_) p)).bind _ = _
  rw [hcall]
  rfl

end

end basic_parser_v1

/-- Lower case means the same for the parser's table and for comparing names. -/
theorem FieldOf.lower {field : Bytes × Bytes} {framing : Framing} (h : FieldOf field framing) :
    field.1.map tolower = field.1.map to_field_char := by
  apply List.map_congr_left
  intro ch hch
  rw [to_field_char, h.tchar ch hch, if_pos rfl]

/-- Which field is looked up for the coding of the body. -/
theorem FieldOf.transfer_encoding {field : Bytes × Bytes} {framing : Framing} (h : FieldOf field framing) :
    ci_equal (lit "Transfer-Encoding") field.1 = decide (framing = .chunked) := by
  have hword : (lit "Transfer-Encoding").map tolower = lit "transfer-encoding" := by decide
  rw [ci_equal, hword, h.lower, Bool.eq_iff_iff, beq_iff_eq, decide_eq_true_iff]
  cases h with
  | plain h =>
    refine ⟨fun hname => ?_, fun hframing => by cases hframing⟩
    have hunlisted := h.unlisted
    rw [← hname] at hunlisted
    exact absurd hunlisted (by decide)
  | length hname =>
    refine ⟨fun h => ?_, fun hframing => by cases hframing⟩
    rw [hname] at h
    exact absurd h (by decide)
  | chunked hname => exact ⟨fun _ => rfl, fun _ => hname.symm⟩

/-- A name is looked up field by field. -/
theorem Fields.get_cons (field : Bytes × Bytes) (fields : Fields) (name : Bytes) :
    Fields.get (field :: fields) name = if ci_equal name field.1 then field.2 else fields.get name := by
  rw [Fields.get, Fields.get, List.find?_cons]
  cases ci_equal name field.1 <;> rfl

/-- The writer finds a coding where the fields say one. -/
theorem Carries.transfer_encoding {fields : Fields} {framing : Framing} (h : Carries fields framing) :
    fields.get (lit "Transfer-Encoding") = if framing = .chunked then lit "chunked" else [] := by
  induction h with
  | nil => rfl
  | plain hfield _ ih =>
    rw [Fields.get_cons, hfield.transfer_encoding]
    simpa using ih
  | @framed field fields framing hfield _ ih =>
    rw [Fields.get_cons, hfield.transfer_encoding, ih]
    cases hfield <;> rfl

/-- `write` codes the body in chunks exactly if the fields say so. -/
theorem Carries.chunked {msg : Message} {framing : Framing} (h : Carries msg.fields framing) :
    msg.chunked = decide (framing = .chunked) := by
  rw [Message.chunked, h.transfer_encoding]
  cases framing with
  | none | length =>
    simp only [reduceCtorEq, if_false, decide_false]
    rfl
  | chunked =>
    have hword : token_list.exists_ (lit "chunked") (lit "chunked") = true := by decide
    simpa using hword

/-- The body is the one the header announces. -/
def Framing.Frames (isRequest : Bool) (status : Nat) (body : Bytes) : Framing → Prop
  | .none => (isRequest = true ∨ status / 100 = 1 ∨ status = 204 ∨ status = 304) ∧ body = []
  | .length n => n = body.length
  | .chunked => body.length < 18446744073709551600

/-- A message that `write` puts on the wire as one that can be read. -/
structure Message.WellFormed (isRequest : Bool) (msg : Message) (framing : Framing) : Prop where
  start : msg.Startable isRequest
  fields : Carries msg.fields framing
  body : framing.Frames isRequest msg.status msg.body

/-- What `write` sends after the end of the message: a chunk of size 0 is the last one, and where
    the body is empty the first chunk has that size. -/
def Message.leftover (msg : Message) : Bytes :=
  if msg.chunked && msg.body.isEmpty then chunk_encode_final else []

namespace basic_parser_v1

section
variable {isRequest : Bool} {c c₁ : basic_parser_v1} {p p₁ : parser_v1} {fs : field_state}
    {pos minor status_code : Nat}

/-- A body of which the header says nothing, and which is not there. -/
theorem completes_none {body : Bytes} (hframes : Framing.none.Frames isRequest status_code body)
    (hp : p.AtField)
    (hline : AtLine isRequest .normal c₁ p₁ ((c.started minor status_code).line fs pos) p) :
    ∃ c', Completes isRequest .normal crlf c₁ p₁ c' ((p.headed (10 + minor)).taken body) := by
  obtain ⟨hstatus, rfl⟩ := hframes
  have hneeds : needs_eof isRequest { (c.started minor status_code).line fs pos with
      upgrade_ := false, s_ := .s_headers_done } = false := by
    rw [needs_eof]
    rcases hstatus with rfl | hstatus
    · rfl
    · simp only [line, started]
      cases isRequest <;> rcases hstatus with h | h | h <;> simp [h]
  have hdone : headers_done isRequest { (c.started minor status_code).line fs pos with
      upgrade_ := false, s_ := .s_headers_done } =
      message_complete { (c.started minor status_code).line fs pos with
        upgrade_ := false, s_ := .s_complete } := by
    rw [headers_done]
    simp only [hneeds]
    rfl
  have htaken : (p.headed (10 + minor)).taken [] = p.headed (10 + minor) := by simp [parser_v1.taken]
  rw [htaken]
  exact ⟨_, completes_header_end hline hp rfl rfl rfl hdone⟩

/-- A body of a length given. -/
theorem completes_length {body : Bytes} (hmax : body.length < no_content_length) (hp : p.AtField)
    (hroom : (p.headed (10 + minor)).BodyRoom body.length)
    (hline : AtLine isRequest .normal c₁ p₁
      (((c.started minor status_code).effect (.length body.length)).line fs pos) p) :
    ∃ c', Completes isRequest .normal (crlf ++ body) c₁ p₁ c' ((p.headed (10 + minor)).taken body) := by
  cases body with
  | nil =>
    have htaken : (p.headed (10 + minor)).taken [] = p.headed (10 + minor) := by simp [parser_v1.taken]
    rw [htaken, List.append_nil]
    exact ⟨_, completes_header_end hline hp rfl rfl rfl rfl⟩
  | cons ch s =>
    set c₂ := (c.started minor status_code).effect (.length (ch :: s).length)
    have hdone : headers_done isRequest { c₂.line fs pos with upgrade_ := false, s_ := .s_headers_done } =
        pure ({ c₂.line fs pos with upgrade_ := false, s_ := .s_body_identity0 }, false) := by
      have hlength : c₂.content_length_ ≠ no_content_length := Nat.ne_of_lt hmax
      rw [headers_done]
      simp only [line, hlength, ne_eq, not_false_eq_true, if_true]
      rfl
    have hheader := reads_header_end hline hp rfl rfl rfl hdone rfl
    exact ⟨_, hheader.ends (completes_identity0 rfl rfl (by simp) rfl hmax hroom)⟩

/-- A body in chunks, none of them empty. -/
theorem completes_chunked {chunks : List Bytes}
    (hchunks : ∀ data ∈ chunks, data ≠ [] ∧ data.length < 18446744073709551600) (hp : p.AtField)
    (hroom : (p.headed (10 + minor)).BodyRoom chunks.flatten.length)
    (hline : AtLine isRequest .normal c₁ p₁ (((c.started minor status_code).effect .chunked).line fs pos) p) :
    ∃ c', Completes isRequest .normal
      (crlf ++ (chunks.flatMap (chunk_encode false) ++ chunk_encode_final)) c₁ p₁ c'
      ((p.headed (10 + minor)).taken chunks.flatten) := by
  have hheader := reads_header_end hline hp rfl rfl rfl rfl rfl
  exact ⟨_, hheader.ends (completes_chunks rfl rfl hchunks hroom)⟩

end

end basic_parser_v1

/-- Each of the fields is one that is read back. -/
theorem Carries.fieldOf {fields : Fields} {framing : Framing} (h : Carries fields framing) :
    ∀ field ∈ fields, ∃ framing, FieldOf field framing := by
  induction h with
  | nil => simp
  | plain hfield _ ih | framed hfield _ ih => exact List.forall_mem_cons.mpr ⟨⟨_, hfield⟩, ih⟩

/-- A length that frames a body is one the parser takes. -/
theorem Carries.length_lt {fields : Fields} {n : Nat} (h : Carries fields (.length n)) :
    n < no_content_length := by
  generalize hframing : Framing.length n = framing at h
  induction h with
  | nil => cases hframing
  | plain _ _ ih => exact ih hframing
  | framed hfield =>
    subst hframing
    cases hfield with
    | length _ hn => exact hn.trans (by decide)

namespace parser_v1

/-- After the fields the header may end. -/
theorem foldl_atField {fields : Fields} {framing : Framing} (h : Carries fields framing) {p : parser_v1}
    (hp : p.AtField) : (fields.foldl stored p).AtField := by
  induction h generalizing p with
  | nil => exact hp
  | plain hfield _ ih | framed hfield _ ih => exact ih (stored_atField hfield.name_ne)

/-- The parser after the header of a message. -/
theorem headed_fields {msg : Message} {framing : Framing} {p : parser_v1} (h : Carries msg.fields framing)
    (hp : p.Untouched) :
    (msg.fields.foldl stored (p.started msg)).headed msg.version =
      { p with
        h_left_ := p.h_left_ - (msg.method.length + msg.url.length + msg.reason.length) - msg.fields.size
        m_ := { msg with body := [] } } := by
  have htrimmed : ∀ field ∈ msg.fields, trim field.2 = field.2 := by
    intro field hfield
    obtain ⟨framing, hfield⟩ := h.fieldOf field hfield
    exact hfield.trimmed
  obtain ⟨hmethod, huri, hreason, hfield, hvalue, hflush, hm⟩ := hp
  rw [headed, flushed_fields htrimmed]
  cases p
  simp_all [flushed, parser_v1.started, pending]

end parser_v1

namespace basic_parser_v1

/-- The header of a message, up to the empty line. -/
theorem reads_header (isRequest : Bool) (what : body_what) {msg : Message} {framing : Framing}
    {c : basic_parser_v1}
    {p : parser_v1} {text : Bytes} (hstart : msg.Startable isRequest)
    (htext : version_text msg.version = some text)
    (hfields : Carries msg.fields framing) (hs : c.s_ = if isRequest then .s_req_start else .s_res_start)
    (hp : p.Untouched)
    (hroom : p.Room (msg.method.length + msg.url.length + msg.reason.length + msg.fields.size)) :
    ∃ c' p' status_code fs pos p'',
      Reads isRequest what (start_line isRequest msg text ++ write_fields msg.fields) c p c' p' ∧
      AtLine isRequest what c' p'
        (((c.started (msg.version - 10) status_code).effect framing).line fs pos) p'' ∧
      p''.AtField ∧ (isRequest = false → status_code = msg.status) ∧
      p''.headed (10 + (msg.version - 10)) =
        { p with
          h_left_ := p.h_left_ - (msg.method.length + msg.url.length + msg.reason.length) - msg.fields.size
          m_ := { msg with body := [] } } := by
  obtain ⟨c₁, p₁, status_code, fs₁, pos₁, hfirst, hline₁, hstatus⟩ :=
    reads_start isRequest what hstart htext hs hp
    (room_mono hroom (by omega))
  have hatField : (p.started msg).AtField := .inr ⟨hp.flush, hp.field, hp.value⟩
  have hrest : (p.started msg).Room msg.fields.size := by
    rcases hroom with hmax | hleft
    · exact .inl hmax
    · right
      change _ ≤ p.h_left_ - _
      omega
  obtain ⟨c₂, p₂, fs, pos, hlines, hline⟩ := reads_fields hfields hline₁ (fun _ => rfl) hatField hrest
  have hversion : 10 + (msg.version - 10) = msg.version := by rcases hstart.version with h | h <;> rw [h]
  have hheaded := parser_v1.headed_fields hfields hp
  refine ⟨c₂, p₂, status_code, fs, pos, _, hfirst.append hlines, hline,
    parser_v1.foldl_atField hfields hatField,
    hstatus, ?_⟩
  rwa [hversion]

/-- A message that has been written is read: what is left of it is what `write` sends too much. -/
theorem completes_octets {isRequest : Bool} {msg : Message} {framing : Framing} {c : basic_parser_v1}
    {p : parser_v1}
    (h : msg.WellFormed isRequest framing) (hs : c.s_ = if isRequest then .s_req_start else .s_res_start)
    (hp : p.Untouched) (hbody : p.BodyRoom msg.body.length)
    (hroom : p.Room (msg.method.length + msg.url.length + msg.reason.length + msg.fields.size)) :
    ∃ s c' p', octets isRequest msg = s ++ msg.leftover ∧ Completes isRequest .normal s c p c' p' ∧
      p'.m_ = msg := by
  obtain ⟨text, htext⟩ := h.start.version_text
  obtain ⟨c₁, p₁, status_code, fs, pos, p₂, hheader, hline, hatField, hstatus, hheaded⟩ :=
    reads_header isRequest .normal h.start htext h.fields hs hp hroom
  have hroom' : (p₂.headed (10 + (msg.version - 10))).BodyRoom msg.body.length := by
    rw [hheaded]
    exact hbody
  have hm : ((p₂.headed (10 + (msg.version - 10))).taken msg.body).m_ = msg := by
    rw [hheaded]
    rfl
  have hchunked := h.fields.chunked
  have hframes := h.body
  have hoctets := octets_eq isRequest htext
  cases framing with
  | none =>
    rw [decide_eq_false (by simp)] at hchunked
    have hframes' : Framing.none.Frames isRequest status_code msg.body := by
      cases isRequest with
      | true => exact ⟨.inl rfl, hframes.2⟩
      | false => rwa [hstatus rfl]
    obtain ⟨c', hlast⟩ := completes_none hframes' hatField hline
    refine ⟨_, c', _, ?_, hheader.ends hlast, hm⟩
    rw [hoctets, Message.coded, Message.leftover, hchunked, hframes.2]
    simp
  | length n =>
    obtain rfl : n = msg.body.length := hframes
    rw [decide_eq_false (by simp)] at hchunked
    obtain ⟨c', hlast⟩ := completes_length h.fields.length_lt hatField hroom' hline
    refine ⟨_, c', _, ?_, hheader.ends hlast, hm⟩
    rw [hoctets, Message.coded, Message.leftover, hchunked]
    simp
  | chunked =>
    rw [decide_eq_true rfl] at hchunked
    obtain ⟨chunks, hchunks, hflatten, hcoded⟩ : ∃ chunks : List Bytes,
        (∀ data ∈ chunks, data ≠ [] ∧ data.length < 18446744073709551600) ∧ chunks.flatten = msg.body ∧
          msg.coded = chunks.flatMap (chunk_encode false) ++ chunk_encode_final ++ msg.leftover := by
      by_cases hempty : msg.body = []
      · refine ⟨[], by simp, by simp [hempty], ?_⟩
        rw [Message.coded, Message.leftover, hchunked, hempty]
        rfl
      · refine ⟨[msg.body], by simpa using ⟨hempty, hframes⟩, by simp, ?_⟩
        rw [Message.coded, Message.leftover, hchunked]
        simp [hempty]
    rw [← hflatten] at hroom' hm
    obtain ⟨c', hlast⟩ := completes_chunked hchunks hatField hroom' hline
    refine ⟨_, c', _, ?_, hheader.ends hlast, hm⟩
    rw [hoctets, hcoded]
    simp

/-- A message whose body comes in chunks is what the chunks hold. -/
theorem completes_in_chunks {isRequest : Bool} {msg : Message} {text : Bytes} {chunks : List Bytes}
    {c : basic_parser_v1} {p : parser_v1} (hstart : msg.Startable isRequest)
    (htext : version_text msg.version = some text) (hfields : Carries msg.fields .chunked)
    (hflatten : chunks.flatten = msg.body)
    (hchunks : ∀ data ∈ chunks, data ≠ [] ∧ data.length < 18446744073709551600)
    (hs : c.s_ = if isRequest then .s_req_start else .s_res_start) (hp : p.Untouched)
    (hbody : p.BodyRoom msg.body.length)
    (hroom : p.Room (msg.method.length + msg.url.length + msg.reason.length + msg.fields.size)) :
    ∃ c' p', Completes isRequest .normal (start_line isRequest msg text ++ write_fields msg.fields ++
      (crlf ++ (chunks.flatMap (chunk_encode false) ++ chunk_encode_final))) c p c' p' ∧ p'.m_ = msg := by
  obtain ⟨c₁, p₁, status_code, fs, pos, p₂, hheader, hline, hatField, -, hheaded⟩ :=
    reads_header isRequest .normal hstart htext hfields hs hp hroom
  have hroom' : (p₂.headed (10 + (msg.version - 10))).BodyRoom chunks.flatten.length := by
    rw [hheaded, hflatten]
    exact hbody
  obtain ⟨c', hlast⟩ := completes_chunked hchunks hatField hroom' hline
  refine ⟨c', _, hheader.ends hlast, ?_⟩
  rw [hheaded, hflatten]
  rfl

end basic_parser_v1

end taraxacum.http
