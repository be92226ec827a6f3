import Taraxacum.Http.Parser.Sound

open json exec push

namespace taraxacum.http

/-- The part of the parser that makes a message of the pieces, with the counters `call_on_*` keep.
    A maximum of 0 is no limit, and then the octets left are not looked at. -/
structure parser_v1 where
  h_max_ : Nat
  h_left_ : Nat
  b_max_ : Nat
  b_left_ : Nat
  method_ : Bytes := []
  uri_ : Bytes := []
  reason_ : Bytes := []
  field_ : Bytes := []
  value_ : Bytes := []
  m_ : Message := {}
  skip_body_ : Bool := false
  flush_ : Bool := false
  deriving DecidableEq

namespace parser_v1

def flush (p : parser_v1) : Outcome parse_error parser_v1 :=
  if !p.flush_ then .returned p
  else if p.field_.isEmpty then .aborted
  else .returned { p with
    flush_ := false
    m_ := { p.m_ with fields := p.m_.fields.insert p.field_ p.value_ }
    field_ := []
    value_ := [] }

/-- A piece of the header, if there is room for it. -/
def header_piece (s : Bytes) (on : parser_v1 → Outcome parse_error parser_v1) (p : parser_v1) :
    Outcome parse_error parser_v1 :=
  if p.h_max_ ≠ 0 ∧ s.length > p.h_left_ then .threw .header_too_big
  else on { p with h_left_ := p.h_left_ - s.length }

def on_field (s : Bytes) (p : parser_v1) : Outcome parse_error parser_v1 :=
  match flush p with
  | .returned p => .returned { p with field_ := p.field_ ++ s }
  | o => o

def on_value (s : Bytes) (p : parser_v1) : Outcome parse_error parser_v1 :=
  .returned { p with value_ := p.value_ ++ s, flush_ := true }

def call_on_value (s : Bytes) : parser_v1 → Outcome parse_error parser_v1 := header_piece s (on_value s)

def call_on_body (s : Bytes) (p : parser_v1) : Outcome parse_error parser_v1 :=
  if p.b_max_ ≠ 0 ∧ s.length > p.b_left_ then .threw .body_too_big
  else .returned { p with b_left_ := p.b_left_ - s.length, m_ := { p.m_ with body := p.m_.body ++ s } }

def take (isRequest : Bool) : pmf_t → Bytes → parser_v1 → Outcome parse_error parser_v1
  | .call_on_method, s, p =>
    if isRequest then header_piece s (fun p => .returned { p with method_ := p.method_ ++ s }) p
    else .returned p
  | .call_on_uri, s, p =>
    if isRequest then header_piece s (fun p => .returned { p with uri_ := p.uri_ ++ s }) p else .returned p
  | .call_on_reason, s, p =>
    if isRequest then .returned p
    else header_piece s (fun p => .returned { p with reason_ := p.reason_ ++ s }) p
  | .call_on_field, s, p => header_piece s (on_field s) p
  | .call_on_value, s, p => call_on_value s p
  | .call_on_body, s, p => call_on_body s p

def call (isRequest : Bool) : callback → parser_v1 → Outcome parse_error parser_v1
  | .on_start, p => .returned p
  | .on_request, p =>
    if isRequest then
      .returned { p with m_ := { p.m_ with method := p.method_, url := p.uri_ }, method_ := [], uri_ := [] }
    else .returned p
  | .on_response status_code, p =>
    if isRequest then .returned p
    else .returned { p with m_ := { p.m_ with status := status_code, reason := p.reason_ }, reason_ := [] }
  | .on_header http_major http_minor, p =>
    match flush p with
    | .returned p => .returned { p with m_ := { p.m_ with version := 10 * http_major + http_minor } }
    | o => o
  | .on_value s, p => call_on_value s p
  | .on_complete, p => .returned p
  | .reset, p => .returned { p with h_left_ := p.h_max_, b_left_ := p.b_max_ }

def sink (isRequest : Bool) : Sink UInt8 pmf_t callback parse_error parser_v1 :=
  ⟨take isRequest, call isRequest⟩

def on_body_what (p : parser_v1) : body_what := if p.skip_body_ then .skip else .normal

end parser_v1

/-- A parser: the state of `basic_parser_v1` and that of `parser_v1`, which derives from it. -/
structure Parser where
  base : basic_parser_v1
  derived : parser_v1
  deriving DecidableEq

namespace Parser

/-- A new parser with the limits and the `skip_body` option given. -/
def create (isRequest : Bool) (header_max_size body_max_size : Nat) (skip_body : Bool) : Parser :=
  { base := { s_ := if isRequest then .s_req_start else .s_res_start }
    derived :=
      { h_max_ := header_max_size, h_left_ := header_max_size, b_max_ := body_max_size,
        b_left_ := body_max_size, skip_body_ := skip_body } }

/-- The limits a parser has when no option is set. -/
def new (isRequest : Bool) : Parser := create isRequest (16 * 1024)
      (if isRequest then 4 * 1024 * 1024 else 0) false

/-- One buffer: the parser after it, how much of it has been read and the error, if there is one. -/
def write (isRequest : Bool) (p : Parser) (buffer : Bytes) : Written basic_parser_v1 parse_error parser_v1 :=
  if buffer.isEmpty && p.base.s_ != .s_dead then .returned p.base p.derived 0 none
  else
    push.write (basic_parser_v1.machine isRequest p.derived.on_body_what) (parser_v1.sink isRequest) p.base
      buffer
      p.derived

/-- A sequence of buffers, one after the other, until one of them brings an error. -/
def writeAll (isRequest : Bool) (p : Parser) : List Bytes → Written basic_parser_v1 parse_error parser_v1
  | [] => .returned p.base p.derived 0 none
  | buffer :: buffers =>
    match write isRequest p buffer with
    | .returned base derived used none => (writeAll isRequest ⟨base, derived⟩ buffers).after used
    | w => w

/-- The end of the stream. -/
def write_eof (p : Parser) : Parser × Option parse_error :=
  match p.base.s_ with
  | .s_restart => ({ p with base := { p.base with s_ := .s_closed_complete } }, none)
  | .s_dead | .s_closed_complete => (p, none)
  | .s_body_identity_eof0 | .s_body_identity_eof =>
    ({ p with base := { p.base with cb_ := none, s_ := .s_closed_complete } }, none)
  | _ => ({ p with base := { p.base with s_ := .s_dead } }, some .short_read)

end Parser

end taraxacum.http
