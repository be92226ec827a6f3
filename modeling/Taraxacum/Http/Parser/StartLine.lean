import Taraxacum.Http.Parser.FieldLines

open json exec push

namespace taraxacum.http

namespace basic_parser_v1

/-- The parser once the start line has been read. -/
def started (c : basic_parser_v1) (http_minor status_code : Nat) : basic_parser_v1 :=
  { c with
    content_length_ := no_content_length
    flags_ := {}
    http_major_ := 1
    http_minor_ := http_minor
    status_code_ := status_code }

section
variable {what : body_what} {c : basic_parser_v1} {p : parser_v1}

/-- Where there is room for more there is room for less. -/
theorem room_mono {m n : Nat} (h : p.Room n) (hle : m ≤ n) : p.Room m := h.imp_right (Nat.le_trans hle)

/-- A request's method. -/
theorem reads_method {method : Bytes} (hs : c.s_ = .s_req_start) (hne : method ≠ [])
    (hmethod : ∀ ch ∈ method, is_tchar ch = true) (hroom : p.Room method.length) (hp : p.method_ = []) :
    Reads true what (method ++ lit " ") c p
      { c with flags_ := {}, content_length_ := no_content_length, cb_ := none, s_ := .s_req_url0 }
      { p with h_left_ := p.h_left_ - method.length, method_ := method } := by
  obtain ⟨ch, s, rfl⟩ := List.exists_cons_of_ne_nil hne
  obtain ⟨hch, hrest⟩ := List.forall_mem_cons.mp hmethod
  set c₁ : basic_parser_v1 :=
    { c with
      flags_ := {}, content_length_ := no_content_length, cb_ := some .call_on_method, s_ := .s_req_method }
  have hfirst : turn true what c 1 ch = ⟨[.call .on_start, .begin .call_on_method], .returned (c₁, false)⟩ := by
    rw [turn, hs]
    dsimp only
    rw [start, if_pos rfl, req_method0, hch, Bool.not_true, if_neg Bool.false_ne_true]
    rfl
  have hquiet : Quiet (machine true what) (some .call_on_method) s c₁ c₁ := by
    refine .same rfl fun a ha => ?_
    have hspace : (a == 0x20) = false := by simpa using (is_tchar_ne a (hrest a ha)).1
    change (if a == 0x20 then _ else if !is_tchar a then _ else _ : Turn (basic_parser_v1 × Bool)) = _
    rw [hspace, if_neg Bool.false_ne_true, hrest a ha, Bool.not_true, if_neg Bool.false_ne_true]
    rfl
  have htake : hand (parser_v1.sink true) .call_on_method (ch :: s) p =
      some { p with h_left_ := p.h_left_ - (ch :: s).length, method_ := ch :: s } := by
    change value? (parser_v1.header_piece (ch :: s)
      (fun p => .returned { p with method_ := p.method_ ++ (ch :: s) }) p) = _
    rw [parser_v1.header_piece_eq hroom, value?, hp, List.nil_append]
  have hpiece := Quiet.piece (parser_v1.sink_additive true) hfirst rfl rfl hquiet htake
  exact hpiece.append (.octet (octet_eq rfl rfl rfl))

/-- A request's target. -/
theorem reads_url {url : Bytes} (hs : c.s_ = .s_req_url0) (hcb : c.cb_ = none) (hne : url ≠ [])
    (hurl : ∀ ch ∈ url, is_text ch = true ∧ ch ≠ 0x20) (hroom : p.Room url.length) (hp : p.uri_ = []) :
    Reads true what (url ++ lit " ") c p { c with cb_ := none, s_ := .s_req_http }
      { p with h_left_ := p.h_left_ - url.length, uri_ := url } := by
  obtain ⟨ch, s, rfl⟩ := List.exists_cons_of_ne_nil hne
  obtain ⟨⟨hch, hspace⟩, hrest⟩ := List.forall_mem_cons.mp hurl
  set c₁ : basic_parser_v1 := { c with cb_ := some .call_on_uri, s_ := .s_req_url }
  have hfirst : turn true what c 1 ch = ⟨[.begin .call_on_uri], .returned (c₁, false)⟩ := by
    rw [turn, hs]
    dsimp only
    rw [if_neg (by simpa using hspace), hch, Bool.not_true, if_neg Bool.false_ne_true, hcb, cb_some hcb]
    rfl
  have hquiet : Quiet (machine true what) (some .call_on_uri) s c₁ c₁ := by
    refine .same rfl fun a ha => ?_
    obtain ⟨htext, hspace⟩ := hrest a ha
    change (if a == 0x20 then _ else if !is_text a then _ else _ : Turn (basic_parser_v1 × Bool)) = _
    rw [if_neg (by simpa using hspace), htext, Bool.not_true, if_neg Bool.false_ne_true]
    rfl
  have htake : hand (parser_v1.sink true) .call_on_uri (ch :: s) p =
      some { p with h_left_ := p.h_left_ - (ch :: s).length, uri_ := ch :: s } := by
    change value? (parser_v1.header_piece (ch :: s)
      (fun p => .returned { p with uri_ := p.uri_ ++ (ch :: s) }) p) = _
    rw [parser_v1.header_piece_eq hroom, value?, hp, List.nil_append]
  have hpiece := Quiet.piece (parser_v1.sink_additive true) hfirst rfl rfl hquiet htake
  exact hpiece.append (.octet (octet_eq rfl rfl rfl))

/-- A request's version and the end of its start line. -/
theorem reads_request_version {version : Nat} {text : Bytes} (htext : version_text version = some text)
    (hs : c.s_ = .s_req_http) (hcb : c.cb_ = none) :
    Reads true what (text ++ crlf) c p
      { c with cb_ := none, s_ := .s_header_name0, http_major_ := 1, http_minor_ := version - 10 }
      { p with m_ := { p.m_ with method := p.method_, url := p.uri_ }, method_ := [], uri_ := [] } := by
  obtain ⟨content_length_, cb_, s_, fs_, pos_, http_major_, http_minor_, status_code_, flags_, upgrade_⟩ := c
  obtain rfl : s_ = .s_req_http := hs
  obtain rfl : cb_ = none := hcb
  unfold version_text at htext
  split at htext <;> cases htext <;> rfl

/-- A response's version. -/
theorem reads_response_version {version : Nat} {text : Bytes} (htext : version_text version = some text)
    (hs : c.s_ = .s_res_start) :
    Reads false what (text ++ lit " ") c p
      { c with
        flags_ := {}, content_length_ := no_content_length, cb_ := none, http_major_ := 1,
        http_minor_ := version - 10
        s_ := .s_res_status0 } p := by
  obtain ⟨content_length_, cb_, s_, fs_, pos_, http_major_, http_minor_, status_code_, flags_, upgrade_⟩ := c
  obtain rfl : s_ = .s_res_start := hs
  unfold version_text at htext
  split at htext <;> cases htext <;> rfl

/-- A response's reason, which may be empty, and the end of its start line. -/
theorem reads_reason {reason : Bytes} (hs : c.s_ = .s_res_reason0) (hcb : c.cb_ = none)
    (hreason : ∀ ch ∈ reason, is_text ch = true) (hroom : p.Room reason.length) (hp : p.reason_ = []) :
    Reads false what (reason ++ crlf) c p { c with cb_ := none, s_ := .s_res_line_done }
      { p with h_left_ := p.h_left_ - reason.length, reason_ := reason } := by
  cases reason with
  | nil =>
    obtain ⟨content_length_, cb_, s_, fs_, pos_, http_major_, http_minor_, status_code_, flags_, upgrade_⟩ := c
    obtain rfl : s_ = .s_res_reason0 := hs
    obtain rfl : cb_ = none := hcb
    have hsame : { p with h_left_ := p.h_left_ - ([] : Bytes).length, reason_ := [] } = p := by
      cases p
      cases hp
      rfl
    rw [hsame]
    rfl
  | cons ch s =>
    obtain ⟨hch, hrest⟩ := List.forall_mem_cons.mp hreason
    set c₁ : basic_parser_v1 := { c with cb_ := some .call_on_reason, s_ := .s_res_reason }
    have hfirst : turn false what c 1 ch = ⟨[.begin .call_on_reason], .returned (c₁, false)⟩ := by
      have hcr := (is_text_ne ch hch).1
      rw [turn, hs]
      dsimp only
      rw [if_neg (by simpa using hcr), hch, Bool.not_true, if_neg Bool.false_ne_true, hcb, cb_some hcb]
      rfl
    have hquiet : Quiet (machine false what) (some .call_on_reason) s c₁ c₁ := by
      refine .same rfl fun a ha => ?_
      have hcr := (is_text_ne a (hrest a ha)).1
      change (if a == 0x0D then _ else if !is_text a then _ else _ : Turn (basic_parser_v1 × Bool)) = _
      rw [if_neg (by simpa using hcr), hrest a ha, Bool.not_true, if_neg Bool.false_ne_true]
      rfl
    have htake : hand (parser_v1.sink false) .call_on_reason (ch :: s) p =
        some { p with h_left_ := p.h_left_ - (ch :: s).length, reason_ := ch :: s } := by
      change value? (parser_v1.header_piece (ch :: s)
        (fun p => .returned { p with reason_ := p.reason_ ++ (ch :: s) }) p) = _
      rw [parser_v1.header_piece_eq hroom, value?, hp, List.nil_append]
    have hpiece := Quiet.piece (parser_v1.sink_additive false) hfirst rfl rfl hquiet htake
    exact hpiece.append (.cons (octet_eq rfl rfl rfl) (.octet (octet_eq rfl rfl rfl)))

/-- After the line of a status the fields begin. -/
theorem atLine_response (hs : c.s_ = .s_res_line_done) :
    AtLine false what c p { c with s_ := .s_header_name0 }
      { p with m_ := { p.m_ with status := c.status_code_, reason := p.reason_ }, reason_ := [] } := by
  intro ch _
  have hturn : turn false what c 1 ch =
      ⟨.call (.on_response c.status_code_) :: (turn false what { c with s_ := .s_header_name0 } 1 ch).events,
        (turn false what { c with s_ := .s_header_name0 } 1 ch).outcome⟩ := by
    rw [turn, hs]
    rfl
  exact octet_call hturn rfl rfl

end

end basic_parser_v1

/-- A start line that can be written and read. -/
structure Message.Startable (isRequest : Bool) (msg : Message) : Prop where
  version : msg.version = 10 ∨ msg.version = 11
  method : isRequest = true → msg.method ≠ [] ∧ ∀ ch ∈ msg.method, is_tchar ch = true
  url : isRequest = true → msg.url ≠ [] ∧ ∀ ch ∈ msg.url, is_text ch = true ∧ ch ≠ 0x20
  status : isRequest = false → 100 ≤ msg.status ∧ msg.status ≤ 999
  reason : isRequest = false → ∀ ch ∈ msg.reason, is_text ch = true
  request : isRequest = true → msg.status = 0 ∧ msg.reason = []
  response : isRequest = false → msg.method = [] ∧ msg.url = []

/-- A message whose start line is read back has a version that is written. -/
theorem Message.Startable.version_text {isRequest : Bool} {msg : Message} (h : msg.Startable isRequest) :
    ∃ text, http.version_text msg.version = some text := by
  rcases h.version with h | h <;> rw [h] <;> exact ⟨_, rfl⟩

namespace parser_v1

/-- A parser that has taken nothing of a message yet. -/
structure Untouched (p : parser_v1) : Prop where
  method : p.method_ = []
  uri : p.uri_ = []
  reason : p.reason_ = []
  field : p.field_ = []
  value : p.value_ = []
  flush : p.flush_ = false
  message : p.m_ = {}

/-- The parser once it has taken a start line. -/
def started (p : parser_v1) (msg : Message) : parser_v1 :=
  { p with
    h_left_ := p.h_left_ - (msg.method.length + msg.url.length + msg.reason.length)
    m_ := { method := msg.method, url := msg.url, status := msg.status, reason := msg.reason } }

end parser_v1

namespace basic_parser_v1

section
variable {what : body_what} {c : basic_parser_v1} {p : parser_v1}

/-- The start line, up to where the first field begins. -/
theorem reads_start (isRequest : Bool) (what : body_what) {msg : Message} {text : Bytes}
    (h : msg.Startable isRequest)
    (htext : version_text msg.version = some text)
    (hs : c.s_ = if isRequest then .s_req_start else .s_res_start)
    (hp : p.Untouched) (hroom : p.Room (msg.method.length + msg.url.length + msg.reason.length)) :
    ∃ c' p' status_code fs pos, Reads isRequest what (start_line isRequest msg text) c p c' p' ∧
      AtLine isRequest what c' p' ((c.started (msg.version - 10) status_code).line fs pos) (p.started msg) ∧
      (isRequest = false → status_code = msg.status) := by
  obtain ⟨hmethod_, huri_, hreason_, -, -, -, hm_⟩ := hp
  cases isRequest with
  | true =>
    obtain ⟨hne, hmethod⟩ := h.method rfl
    obtain ⟨hune, hurl⟩ := h.url rfl
    obtain ⟨hstatus, hreason⟩ := h.request rfl
    have hfirst := @reads_method what c p msg.method hs hne hmethod (room_mono hroom (by omega)) hmethod_
    have hsecond := @reads_url what
      { c with flags_ := {}, content_length_ := no_content_length, cb_ := none, s_ := .s_req_url0 }
      { p with h_left_ := p.h_left_ - msg.method.length, method_ := msg.method } msg.url
      rfl rfl hune hurl (hroom.imp_right fun h => by dsimp only; omega) huri_
    have hthird := @reads_request_version what
      { c with flags_ := {}, content_length_ := no_content_length, cb_ := none, s_ := .s_req_http }
      { p with
        h_left_ := p.h_left_ - msg.method.length - msg.url.length, method_ := msg.method, uri_ := msg.url }
      _ _ htext rfl rfl
    have hline : start_line true msg text =
      msg.method ++ lit " " ++ (msg.url ++ lit " ") ++ (text ++ crlf) := by
      simp [start_line]
    rw [hline]
    refine ⟨_, _, c.status_code_, c.fs_, c.pos_, (hfirst.append hsecond).append hthird, ?_, fun h => by cases h⟩
    have hdata : parser_v1.started p msg =
        { p with
          h_left_ := p.h_left_ - msg.method.length - msg.url.length,
          m_ := { p.m_ with method := msg.method, url := msg.url }, method_ := [], uri_ := [] } := by
      cases p
      simp_all [parser_v1.started, Nat.sub_sub]
    rw [hdata]
    exact fun ch _ => rfl
  | false =>
    obtain ⟨hmethod, hurl⟩ := h.response rfl
    have hfirst := @reads_response_version what c p msg.version text htext hs
    set c₁ : basic_parser_v1 :=
      { c with
        flags_ := {}, content_length_ := no_content_length, cb_ := none, http_major_ := 1
        http_minor_ := msg.version - 10, s_ := .s_res_status0 }
    have hsecond : Reads false what (decimal msg.status) c₁ p
        { c₁ with status_code_ := msg.status, s_ := .s_res_space_2 } p :=
      (@quiet_status c₁ false what msg.status (h.status rfl) rfl rfl).leads (parser_v1.sink_additive false) rfl
    have hthird : Reads false what (lit " ") { c₁ with status_code_ := msg.status, s_ := .s_res_space_2 } p
        { c₁ with status_code_ := msg.status, s_ := .s_res_reason0 } p := .octet (octet_eq rfl rfl rfl)
    have hfourth := @reads_reason what { c₁ with status_code_ := msg.status, s_ := .s_res_reason0 } p
      msg.reason rfl rfl
      (h.reason rfl) (room_mono hroom (by omega)) hreason_
    have hline : start_line false msg text =
        text ++ lit " " ++ decimal msg.status ++ lit " " ++ (msg.reason ++ crlf) := by
      simp [start_line]
    rw [hline]
    refine ⟨_, _, msg.status, c.fs_, c.pos_, ((hfirst.append hsecond).append hthird).append hfourth,
      ?_, fun _ => rfl⟩
    have hdata : parser_v1.started p msg =
        { p with
          h_left_ := p.h_left_ - msg.reason.length,
          m_ := { p.m_ with status := msg.status, reason := msg.reason }, reason_ := [] } := by
      cases p
      simp_all [parser_v1.started]
    rw [hdata]
    exact atLine_response rfl

end

end basic_parser_v1

end taraxacum.http
