import Taraxacum.Http.Parser.Assertions
import Taraxacum.Http.Parser.RoundTrip

open json exec push

namespace taraxacum.http

/-- A message within the limits a new parser has. -/
structure Message.Fits (isRequest : Bool) (msg : Message) : Prop where
  header : msg.method.length + msg.url.length + msg.reason.length + msg.fields.size ≤ 16 * 1024
  body : isRequest = true → msg.body.length ≤ 4 * 1024 * 1024

/-- A response whose body ends where the stream does. -/
structure Message.Unframed (msg : Message) : Prop where
  start : msg.Startable false
  fields : Carries msg.fields .none
  status : ¬(msg.status / 100 = 1 ∨ msg.status = 204 ∨ msg.status = 304)

namespace Message.Fits

variable {isRequest : Bool} {msg : Message}

/-- A message within the limits has room in a new parser. -/
theorem room (h : msg.Fits isRequest) : (Parser.new isRequest).derived.Room
    (msg.method.length + msg.url.length + msg.reason.length + msg.fields.size) := .inr h.header

/-- A body within the limits has room in a new parser. -/
theorem bodyRoom (h : msg.Fits isRequest) : (Parser.new isRequest).derived.BodyRoom msg.body.length := by
  cases isRequest with
  | true => exact .inr (h.body rfl)
  | false => exact .inl rfl

end Message.Fits

namespace Parser

variable {isRequest : Bool} {msg : Message} {framing : Framing}

/-- A new parser has nothing of a message. -/
theorem new_untouched (isRequest : Bool) : (new isRequest).derived.Untouched :=
  ⟨rfl, rfl, rfl, rfl, rfl, rfl, rfl⟩

/-- A new parser waits for the start line of its kind. -/
theorem new_start (isRequest : Bool) :
    (new isRequest).base.s_ = if isRequest then .s_req_start else .s_res_start := rfl

/-- A stream that begins with a whole message, cut into reads at any octets. A read brings one
    buffer, or several where nothing comes after the message. -/
theorem read_completes {s rest : Bytes} {reads : List (List Bytes)} {c : basic_parser_v1} {p : parser_v1}
    (h : basic_parser_v1.Completes isRequest .normal s (new isRequest).base (new isRequest).derived c p)
    (what : Option Bytes) (hreads : ∀ buffers ∈ reads, [] ∉ buffers)
    (hoctets : reads.flatten.flatten = s ++ rest)
    (hcut : (∀ buffers ∈ reads, buffers.length ≤ 1) ∨ rest = []) :
    (read isRequest what reads).result = some (p.m_, rest) := by
  have hrun : (new isRequest).run isRequest reads.flatten.flatten = some ⟨c, p, s.length, true⟩ := by
    rw [hoctets]
    exact h.run_append rest
  rw [read_result hreads]
  · rw [hrun, Option.bind_some, if_pos rfl, hoctets, List.drop_left]
  · intro r hr hleft
    obtain rfl := Option.some.inj (hrun.symm.trans hr)
    have hpos := used_pos hrun rfl
    rcases hcut with hsingle | rfl
    · exact endsRead_of_single hsingle hpos
    · exact endsRead_of_all hreads hpos (by rw [hoctets, List.append_nil])

/-- Whatever is written is read as it was, and what comes after it is left to be read. -/
theorem read_octets (isRequest : Bool) (what : Option Bytes) {msg : Message} {framing : Framing} {rest : Bytes}
    {reads : List (List Bytes)} (h : msg.WellFormed isRequest framing) (hfits : msg.Fits isRequest)
    (hreads : ∀ buffers ∈ reads, [] ∉ buffers) (hoctets : reads.flatten.flatten = octets isRequest msg ++ rest)
    (hcut : (∀ buffers ∈ reads, buffers.length ≤ 1) ∨ msg.leftover ++ rest = []) :
    (read isRequest what reads).result = some (msg, msg.leftover ++ rest) := by
  obtain ⟨s, c, p, hs, hcompletes, hm⟩ := basic_parser_v1.completes_octets h (new_start isRequest)
    (new_untouched isRequest) hfits.bodyRoom hfits.room
  rw [hs, List.append_assoc] at hoctets
  rw [read_completes hcompletes what hreads hoctets hcut, hm]

/-- A response of two octets, cut within the name of its only field. -/
theorem read_octets_two :
    (read false none [[lit "HTTP/1.1 200 OK\r\nContent-L"], [lit "ength: 2\r\n\r\nhi"]]).result =
      some ({
        version := 11, status := 200, reason := lit "OK"
        fields := [(lit "Content-Length", lit "2")], body := lit "hi" }, []) := by
  set msg : Message := {
    version := 11, status := 200, reason := lit "OK"
    fields := [(lit "Content-Length", lit "2")], body := lit "hi" }
  have hstart : msg.Startable false :=
    { version := .inr rfl
      method := fun h => by cases h
      url := fun h => by cases h
      status := fun _ => by decide
      reason := fun _ => by decide +kernel
      request := fun h => by cases h
      response := fun _ => ⟨rfl, rfl⟩ }
  have hfield : FieldOf (lit "Content-Length", decimal 2) (.length 2) := .length (by decide) (by decide)
  have htext : decimal 2 = lit "2" := by decide +kernel
  rw [htext] at hfield
  exact @read_octets false none msg (.length 2) []
    [[lit "HTTP/1.1 200 OK\r\nContent-L"], [lit "ength: 2\r\n\r\nhi"]]
    ⟨hstart, .framed hfield .nil, rfl⟩ ⟨by decide, fun h => by cases h⟩ (by decide) (by decide +kernel)
      (.inl (by decide))

/-- A body that comes in chunks is what the chunks hold, whichever they are and wherever the stream is
    cut: the cuts need not be between the chunks. A read brings one buffer, or several where
    nothing comes after the message. -/
theorem read_chunks (isRequest : Bool) (what : Option Bytes) {msg : Message} {text rest : Bytes}
    {chunks : List Bytes}
    {reads : List (List Bytes)} (hstart : msg.Startable isRequest)
    (htext : version_text msg.version = some text)
    (hfields : Carries msg.fields .chunked) (hbody : chunks.flatten = msg.body)
    (hchunks : ∀ data ∈ chunks, data ≠ [] ∧ data.length < 18446744073709551600) (hfits : msg.Fits isRequest)
    (hreads : ∀ buffers ∈ reads, [] ∉ buffers)
    (hoctets : reads.flatten.flatten = start_line isRequest msg text ++ write_fields msg.fields ++
      (crlf ++ (chunks.flatMap (chunk_encode false) ++ chunk_encode_final)) ++ rest)
    (hcut : (∀ buffers ∈ reads, buffers.length ≤ 1) ∨ rest = []) :
    (read isRequest what reads).result = some (msg, rest) := by
  obtain ⟨c, p, hcompletes, hm⟩ := basic_parser_v1.completes_in_chunks hstart htext hfields hbody hchunks
    (new_start isRequest) (new_untouched isRequest) hfits.bodyRoom hfits.room
  rw [read_completes hcompletes what hreads hoctets hcut, hm]

/-- Two chunks, of which the first is cut before its last octet. -/
theorem read_chunks_two :
    (read false none [[lit "HTTP/1.1 200 OK\r\nTransfer-Encoding: chunked\r\n\r\n2\r\nh"],
      [lit "i\r\n1\r\n!\r\n0\r\n\r\n"]]).result =
      some ({
        version := 11, status := 200, reason := lit "OK"
        fields := [(lit "Transfer-Encoding", lit "chunked")], body := lit "hi!" }, []) := by
  set msg : Message := {
    version := 11, status := 200, reason := lit "OK"
    fields := [(lit "Transfer-Encoding", lit "chunked")], body := lit "hi!" }
  have hstart : msg.Startable false :=
    { version := .inr rfl
      method := fun h => by cases h
      url := fun h => by cases h
      status := fun _ => by decide
      reason := fun _ => by decide +kernel
      request := fun h => by cases h
      response := fun _ => ⟨rfl, rfl⟩ }
  exact @read_chunks false none msg (lit "HTTP/1.1") [] [lit "hi", lit "!"]
    [[lit "HTTP/1.1 200 OK\r\nTransfer-Encoding: chunked\r\n\r\n2\r\nh"], [lit "i\r\n1\r\n!\r\n0\r\n\r\n"]]
    hstart rfl (.framed (.chunked (by decide)) .nil) (by decide) (by decide)
      ⟨by decide, fun h => by cases h⟩ (by decide)
    (by decide) (.inl (by decide))

end Parser

namespace basic_parser_v1

section
variable {c c₁ : basic_parser_v1} {p p₁ : parser_v1} {fs : field_state} {pos minor status_code : Nat}

/-- The parser reads a body that only the end of the stream ends. -/
def UntilEof (c : basic_parser_v1) : Prop := c.s_ = .s_body_identity_eof0 ∨ c.s_ = .s_body_identity_eof

/-- Nothing in such a body ends it. -/
theorem untilEof_octet {isRequest : Bool} {what : body_what} {c c' : basic_parser_v1}
    {p p' : parser_v1} {ch : UInt8}
    {left : Bool} (hc : c.UntilEof)
    (h : push.octet (machine isRequest what) (parser_v1.sink isRequest) c ch p = some (c', p', left)) :
    c'.UntilEof ∧ left = false := by
  have hturn := octet_turn h
  rcases hc with hs | hs
  · change (turn isRequest what c 1 ch).outcome = _ at hturn
    rw [turn, hs] at hturn
    dsimp only at hturn
    cases hcb : c.cb_ with
    | some t =>
      rw [hcb] at hturn
      cases hturn
    | none =>
      rw [hcb, cb_some hcb] at hturn
      cases hturn
      exact ⟨.inr rfl, rfl⟩
  · change (turn isRequest what c 1 ch).outcome = _ at hturn
    rw [turn, hs] at hturn
    cases hturn
    exact ⟨.inr hs, rfl⟩

/-- The octets of a body that only the end of the stream ends. -/
theorem reads_until_eof (isRequest : Bool) (what : body_what) {body : Bytes} (hs : c.s_ = .s_body_identity_eof0)
    (hcb : c.cb_ = none) (hroom : p.BodyRoom body.length) :
    ∃ c', Reads isRequest what body c p c' (p.taken body) ∧ c'.UntilEof := by
  cases body with
  | nil =>
    have htaken : p.taken [] = p := by simp [parser_v1.taken]
    rw [htaken]
    exact ⟨c, .nil, .inl hs⟩
  | cons ch s =>
    set c₁ : basic_parser_v1 := { c with cb_ := some .call_on_body, s_ := .s_body_identity_eof }
    have hfirst : turn isRequest what c 1 ch = ⟨[.begin .call_on_body], .returned (c₁, false)⟩ := by
      rw [turn, hs]
      dsimp only
      rw [hcb, cb_some hcb]
      rfl
    have hquiet : Quiet (machine isRequest what) (some .call_on_body) s c₁ c₁ := .same rfl fun _ _ => rfl
    exact ⟨c₁, Quiet.piece (parser_v1.sink_additive isRequest) hfirst rfl rfl hquiet
      (parser_v1.hand_body hroom), .inr rfl⟩

/-- A response whose header says nothing of its body. -/
theorem reads_unframed {msg : Message} (h : msg.Unframed) (hs : c.s_ = .s_res_start) (hp : p.Untouched)
    (hbody : p.BodyRoom msg.body.length)
    (hroom : p.Room (msg.method.length + msg.url.length + msg.reason.length + msg.fields.size)) :
    ∃ c' p', Reads false .normal (octets false msg) c p c' p' ∧ c'.UntilEof ∧ p'.m_ = msg := by
  obtain ⟨text, htext⟩ := h.start.version_text
  obtain ⟨c₁, p₁, status_code, fs, pos, p₂, hheader, hline, hatField, hstatus, hheaded⟩ :=
    reads_header false .normal h.start htext h.fields hs hp hroom
  obtain rfl := hstatus rfl
  set c₂ := (c.started (msg.version - 10) msg.status).line fs pos
  have hneeds : needs_eof false { c₂ with upgrade_ := false, s_ := .s_headers_done } = true := by
    have hstatus := h.status
    push Not at hstatus
    obtain ⟨hinformational, hno_content, hnot_modified⟩ := hstatus
    have hcode : (decide (msg.status / 100 = 1) || decide (msg.status = 204) ||
        decide (msg.status = 304) || false) =
        false := by simp [hinformational, hno_content, hnot_modified]
    rw [needs_eof, if_neg Bool.false_ne_true]
    exact (if_neg (by rw [← Bool.not_eq_true] at hcode; exact hcode)).trans rfl
  have hdone : headers_done false { c₂ with upgrade_ := false, s_ := .s_headers_done } =
      pure ({ c₂ with upgrade_ := false, s_ := .s_body_identity_eof0 }, false) := by
    rw [headers_done]
    simp only [hneeds]
    rfl
  have hend : Reads false .normal crlf c₁ p₁ { c₂ with upgrade_ := false, s_ := .s_body_identity_eof0 }
      (p₂.headed (10 + (msg.version - 10))) := reads_header_end hline hatField rfl rfl rfl hdone rfl
  have hroom' : (p₂.headed (10 + (msg.version - 10))).BodyRoom msg.body.length := by
    rw [hheaded]
    exact hbody
  obtain ⟨c', hlast, hc'⟩ := @reads_until_eof { c₂ with upgrade_ := false, s_ := .s_body_identity_eof0 } _ false
    .normal msg.body rfl rfl hroom'
  have hcoded : msg.coded = msg.body := by
    rw [Message.coded, h.fields.chunked]
    rfl
  have hoctets : octets false msg = start_line false msg text ++ write_fields msg.fields ++ crlf ++
    msg.body := by
    rw [octets_eq false htext, hcoded]
    simp
  refine ⟨c', (p₂.headed (10 + (msg.version - 10))).taken msg.body, ?_, hc', ?_⟩
  · rw [hoctets]
    exact (hheader.append hend).append hlast
  · rw [hheaded]
    rfl

end

end basic_parser_v1

namespace Parser

/-- A response without a length is read until the stream ends, with all of its body. -/
theorem run_unframed {msg : Message} (h : msg.Unframed) (hfits : msg.Fits false) :
    ∃ r, (new false).run false (octets false msg) = some r ∧ r.left = false ∧ r.control.UntilEof ∧
      r.data.m_ = msg := by
  obtain ⟨c', p', hreads, hc', hm⟩ := basic_parser_v1.reads_unframed h (new_start false) (new_untouched false)
    hfits.bodyRoom hfits.room
  exact ⟨⟨c', p', _, false⟩, hreads, rfl, hc', hm⟩

/-- The end of the stream is the end of such a message. -/
theorem write_eof_untilEof {p : Parser} (hp : p.base.UntilEof) :
    p.write_eof = ({ p with base := { p.base with cb_ := none, s_ := .s_closed_complete } }, none) := by
  rcases hp with hs | hs <;> rw [write_eof, hs]

/-- At the end of the stream a body that has no other end is complete. -/
theorem atEnd_untilEof {p : Parser} (hp : p.base.UntilEof) : p.atEnd true none = some (p.derived.m_, []) := by
  rw [atEnd, parse.last, Bool.not_true, if_neg Bool.false_ne_true, write_eof_untilEof hp]
  rfl

/-- Where nothing says how long the body is, it is read to the end of the stream, and a stream
    that fails gives no message. -/
theorem read_unframed (what : Option Bytes) {msg : Message} {reads : List (List Bytes)} (h : msg.Unframed)
    (hfits : msg.Fits false) (hreads : ∀ buffers ∈ reads, [] ∉ buffers)
    (hoctets : reads.flatten.flatten = octets false msg) :
    (read false what reads).result = if what.isNone then some (msg, []) else none := by
  obtain ⟨r, hrun, hleft, hc, hm⟩ := run_unframed h hfits
  obtain ⟨text, htext⟩ := h.start.version_text
  have hsome : (octets false msg).isEmpty = false := by
    rw [octets_eq false htext, start_line, if_neg Bool.false_ne_true]
    simp [crlf, lit]
  rw [← hoctets] at hrun hsome
  rw [read_result hreads]
  · rw [hrun, Option.bind_some, hleft, if_neg Bool.false_ne_true, hsome]
    cases what with
    | none =>
      have hend := atEnd_untilEof (p := reached r) hc
      rw [show (reached r).derived.m_ = msg from hm] at hend
      exact hend
    | some what => rfl
  · intro r' hr' hleft'
    obtain rfl : r = r' := Option.some.inj (hrun.symm.trans hr')
    rw [hleft] at hleft'
    cases hleft'

/-- Such a body is never complete before. -/
theorem run_untilEof {p : Parser} {s : Bytes} {r : Reached basic_parser_v1 parser_v1} (hp : p.base.UntilEof)
    (h : p.run isRequest s = some r) : r.left = false := by
  have hoctet : ∀ c a data c' data' left, basic_parser_v1.UntilEof c →
      push.octet (basic_parser_v1.machine isRequest p.derived.on_body_what)
        (parser_v1.sink isRequest) c a data =
        some (c', data', left) → basic_parser_v1.UntilEof c' ∧ left = (fun _ => false) c' := by
    intro c a data c' data' left hc hoctet
    exact basic_parser_v1.untilEof_octet hc hoctet
  exact push.run_left hoctet h hp rfl

/-- What is left of a message that goes on is an error, at the end of the stream and when it fails. -/
theorem atEnd_incomplete {p : Parser} (hp : p.Reading) (heof : ¬p.base.UntilEof) (got_some : Bool)
    (what : Option Bytes) :
    p.atEnd got_some what = none := by
  cases what with
  | some what => rfl
  | none =>
    rw [atEnd, parse.last]
    split
    · rfl
    · split
      · rfl
      · rename_i hwrite
        rw [write_eof] at hwrite
        split at hwrite
        · rename_i hs
          exact absurd hp.incomplete (by simp [basic_parser_v1.complete, hs])
        · rename_i hs
          cases hwrite
          rw [if_neg (by simp [basic_parser_v1.complete, hs])]
          rfl
        · rename_i hs
          exact absurd hp.incomplete (by simp [basic_parser_v1.complete, hs])
        · rename_i hs
          exact absurd (.inl hs) heof
        · rename_i hs
          exact absurd (.inr hs) heof
        · cases hwrite

/-- A message that is complete before the stream ends is not read from fewer octets, however they
    are cut: a stream that ends or fails inside it gives an error. -/
theorem read_truncated (isRequest : Bool) (what : Option Bytes) {s rest e : Bytes} {msg : Message}
    {reads : List (List Bytes)} (hs : (read isRequest (some e) [[s]]).result = some (msg, []))
    (hreads : ∀ buffers ∈ reads, [] ∉ buffers) (hcut : s = reads.flatten.flatten ++ rest) (hrest : rest ≠ []) :
    ∃ error, read isRequest what reads = .failed error := by
  have hne : s ≠ [] := by simp [hcut, hrest]
  have hwhole : (read isRequest (some e) [[s]]).result = _ :=
    @read_result_single isRequest (some e) [s] (by simpa using hne.symm)
  rw [hs, List.flatten_singleton] at hwhole
  obtain ⟨r, hrun, hresult⟩ := Option.bind_eq_some_iff.mp hwhole.symm
  have hleft : r.left = true := by
    by_contra hnot
    rw [if_neg hnot] at hresult
    cases hresult
  rw [if_pos hleft] at hresult
  have hused : s.length ≤ r.used := List.drop_eq_nil_iff.mp (congrArg Prod.snd (Option.some.inj hresult))
  rw [hcut, run_append] at hrun
  obtain ⟨r₁, hr₁, hnext⟩ := Option.bind_eq_some_iff.mp hrun
  have hlength := congrArg List.length hcut
  rw [List.length_append] at hlength
  have hpos := List.length_pos_iff.mpr hrest
  have hle := (run_used hr₁).1
  have hleft₁ : r₁.left = false := by
    by_contra hnot
    rw [if_pos (by simpa using hnot)] at hnext
    cases hnext
    omega
  rw [hleft₁, if_neg Bool.false_ne_true] at hnext
  obtain ⟨r₂, hr₂, rfl⟩ := Option.map_eq_some_iff.mp hnext
  have heof : ¬(reached r₁).base.UntilEof := by
    intro hc
    rw [Reached.after, run_untilEof hc hr₂] at hleft
    cases hleft
  have hnone : (read isRequest what reads).result = none := by
    rw [read_result hreads]
    · rw [hr₁, Option.bind_some, hleft₁, if_neg Bool.false_ne_true]
      exact atEnd_incomplete (run_reading hr₁ (new_reading isRequest) hleft₁) heof _ what
    · intro r' hr' hleft'
      obtain rfl : r₁ = r' := Option.some.inj (hr₁.symm.trans hr')
      rw [hleft₁] at hleft'
      cases hleft'
  have hstart : (new isRequest).base.s_ ≠ .s_dead := by cases isRequest <;> simp [new, create]
  rcases parse_returns (create_ready isRequest _ _ false) hstart what reads [] false with ⟨q, d, left, h⟩ | h
  · rw [read, show parse isRequest what reads (new isRequest) [] false = _ from h] at hnone
    cases hnone
  · exact h

/-- The last octet of a response does not come. -/
theorem read_truncated_one : ∃ error, read false none [[lit "HTTP/1.1 204 \r\n\r"]] = .failed error :=
  @read_truncated false none (lit "HTTP/1.1 204 \r\n\r\n") (lit "\n") (lit "reset")
    { version := 11, status := 204 }
    [[lit "HTTP/1.1 204 \r\n\r"]] (by decide +kernel) (by decide) (by decide) (by decide)

end Parser

end taraxacum.http
