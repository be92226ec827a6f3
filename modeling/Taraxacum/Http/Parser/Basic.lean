import Taraxacum.Push
import Taraxacum.Http.Rfc7230

open json exec push

namespace taraxacum.http

/-- `parser_base::state`, without the pause before a body. -/
inductive state where
  | s_dead
  | s_req_start | s_req_method0 | s_req_method | s_req_url0 | s_req_url
  | s_req_http | s_req_http_H | s_req_http_HT | s_req_http_HTT | s_req_http_HTTP
  | s_req_major | s_req_dot | s_req_minor | s_req_cr | s_req_lf
  | s_res_start | s_res_H | s_res_HT | s_res_HTT | s_res_HTTP | s_res_major | s_res_dot | s_res_minor
  | s_res_space_1 | s_res_status0 | s_res_status1 | s_res_status2 | s_res_space_2
  | s_res_reason0 | s_res_reason | s_res_line_lf | s_res_line_done
  | s_header_name0 | s_header_name
  | s_header_value0_lf | s_header_value0_almost_done | s_header_value0
  | s_header_value | s_header_value_lf | s_header_value_almost_done | s_header_value_unfold
  | s_headers_almost_done | s_headers_done
  | s_chunk_size0 | s_chunk_size | s_chunk_ext_name0 | s_chunk_ext_name | s_chunk_ext_val | s_chunk_size_lf
  | s_chunk_data0 | s_chunk_data | s_chunk_data_cr | s_chunk_data_lf
  | s_body_identity0 | s_body_identity | s_body_identity_eof0 | s_body_identity_eof
  | s_complete | s_restart | s_closed_complete
  deriving DecidableEq

/-- How far a field's name or value has been recognised. -/
inductive field_state where
  | h_general
  | h_C | h_CO | h_CON
  | h_matching_connection | h_matching_proxy_connection | h_matching_content_length
  | h_matching_transfer_encoding | h_matching_upgrade
  | h_connection | h_content_length0 | h_content_length | h_content_length_ows | h_transfer_encoding | h_upgrade
  | h_matching_transfer_encoding_chunked | h_matching_transfer_encoding_general
  | h_matching_connection_keep_alive | h_matching_connection_close | h_matching_connection_upgrade
  | h_transfer_encoding_chunked | h_transfer_encoding_chunked_ows
  | h_connection_keep_alive | h_connection_keep_alive_ows
  | h_connection_close | h_connection_close_ows
  | h_connection_upgrade | h_connection_upgrade_ows
  | h_connection_token | h_connection_token_ows
  deriving DecidableEq

inductive parse_error where
  | connection_closed
  | bad_method | bad_uri | bad_version | bad_crlf | bad_status | bad_reason
  | bad_field | bad_value | bad_content_length | illegal_content_length
  | invalid_chunk_size | invalid_ext_name | invalid_ext_val
  | header_too_big | body_too_big | short_read
  deriving DecidableEq

structure parse_flag where
  chunked : Bool := false
  connection_keep_alive : Bool := false
  connection_close : Bool := false
  connection_upgrade : Bool := false
  trailing : Bool := false
  upgrade : Bool := false
  skipbody : Bool := false
  contentlength : Bool := false
  deriving DecidableEq

inductive body_what where
  | normal | skip | upgrade
  deriving DecidableEq

/-- The member functions `cb_` may point to. -/
inductive pmf_t where
  | call_on_method | call_on_uri | call_on_reason | call_on_field | call_on_value | call_on_body
  deriving DecidableEq

/-- The other callbacks, with what they are given or look at in the parser, and `reset`
    for the counters of what may still come. -/
inductive callback where
  | on_start | on_request
  | on_response (status_code : Nat)
  | on_header (http_major http_minor : Nat)
  | on_value (s : Bytes)
  | on_complete
  | reset
  deriving DecidableEq

def no_content_length : Nat := 18446744073709551615

structure basic_parser_v1 where
  content_length_ : Nat := no_content_length
  cb_ : Option pmf_t := none
  s_ : state
  fs_ : field_state := .h_general
  pos_ : Nat := 0
  http_major_ : Nat := 0
  http_minor_ : Nat := 0
  status_code_ : Nat := 0
  flags_ : parse_flag := {}
  upgrade_ : Bool := false
  deriving DecidableEq

namespace parser_str

def close : Bytes := lit "close\x00"
def chunked : Bytes := lit "chunked\x00"
def keep_alive : Bytes := lit "keep-alive\x00"
def upgrade : Bytes := lit "upgrade\x00"
def connection : Bytes := lit "connection\x00"
def content_length : Bytes := lit "content-length\x00"
def proxy_connection : Bytes := lit "proxy-connection\x00"
def transfer_encoding : Bytes := lit "transfer-encoding\x00"

end parser_str

namespace basic_parser_v1

/-- What one turn of the loop in `write` does; an error carries the dead parser. -/
abbrev Turn (α : Type) := Exec (Action pmf_t callback) (parse_error × basic_parser_v1) α

def err {α : Type} (ev : parse_error) (c : basic_parser_v1) : Turn α :=
  Exec.raise (ev, { c with s_ := .s_dead })

def assert (b : Bool) : Turn Unit := if b then pure () else Exec.abort

/-- The lambda `cb`. -/
def cb (next : Option pmf_t) (c : basic_parser_v1) : Turn basic_parser_v1 := do
  match c.cb_ with
  | some t => Exec.emit (.piece t)
  | none => pure ()
  match next with
  | some t => Exec.emit (.begin t)
  | none => pure ()
  return { c with cb_ := next }

/-- `p += n - 1`. -/
def skip : Nat → Turn Unit
  | 0 => Exec.undefinedBehaviour
  | n + 1 => ⟨List.replicate n .advance, .returned ()⟩

/-- The octet is the one the source's state waits for. -/
def expect (ch want : UInt8) (ev : parse_error) (next : state) (c : basic_parser_v1) :
    Turn (basic_parser_v1 × Bool) :=
  if ch != want then err ev c else return ({ c with s_ := next }, false)

/-- The number of the message's digits goes on. -/
def digit (ch : UInt8) (ev : parse_error) (c next : basic_parser_v1) : Turn (basic_parser_v1 × Bool) :=
  if !is_digit ch then err ev c else return (next, false)

/-- `str[pos_]` against an octet in lower case, after `++pos_`. -/
def matching (str : Bytes) (ch : UInt8) (missed matched : field_state) (c : basic_parser_v1) :
    Turn basic_parser_v1 :=
  let c := { c with pos_ := c.pos_ + 1 }
  match str[c.pos_]? with
  | none => Exec.undefinedBehaviour
  | some want =>
    if ch != want then return { c with fs_ := missed }
    else if c.pos_ == str.length - 2 then return { c with fs_ := matched }
    else return c

/-- A further octet of a field's name, in lower case. -/
def name_char (ch : UInt8) (c : basic_parser_v1) : Turn basic_parser_v1 :=
  match c.fs_ with
  | .h_C => return { c with pos_ := c.pos_ + 1, fs_ := if ch == 0x6F then .h_CO else .h_general }
  | .h_CO => return { c with pos_ := c.pos_ + 1, fs_ := if ch == 0x6E then .h_CON else .h_general }
  | .h_CON =>
    return { c with
      pos_ := c.pos_ + 1
      fs_ :=
        if ch == 0x6E then .h_matching_connection
        else if ch == 0x74 then .h_matching_content_length
        else .h_general }
  | .h_matching_connection => matching parser_str.connection ch .h_general .h_connection c
  | .h_matching_proxy_connection => matching parser_str.proxy_connection ch .h_general .h_connection c
  | .h_matching_content_length => do
    let c ← matching parser_str.content_length ch .h_general .h_content_length0 c
    if c.fs_ = .h_content_length0 && c.flags_.contentlength then err .bad_content_length c else return c
  | .h_matching_transfer_encoding => matching parser_str.transfer_encoding ch .h_general .h_transfer_encoding c
  | .h_matching_upgrade => matching parser_str.upgrade ch .h_general .h_upgrade c
  | .h_connection | .h_content_length0 | .h_transfer_encoding | .h_upgrade =>
    return { c with fs_ := .h_general }
  | _ => return c

/-- An octet after an option of the Connection field, which counts when the option ends. -/
def connection_option (set : parse_flag → parse_flag) (ows : field_state) (ch : UInt8) (c : basic_parser_v1) :
    Turn basic_parser_v1 :=
  if ch == 0x2C then return { c with fs_ := .h_connection, flags_ := set c.flags_ }
  else if ch == 0x20 || ch == 0x09 then return { c with fs_ := ows }
  else if is_tchar ch then return { c with fs_ := .h_connection_token }
  else err .bad_value c

def connection_option_ows (set : parse_flag → parse_flag) (ch : UInt8) (c : basic_parser_v1) :
    Turn basic_parser_v1 :=
  if ch == 0x2C then return { c with fs_ := .h_connection, flags_ := set c.flags_ }
  else if ch == 0x20 || ch == 0x09 then return c
  else err .bad_value c

/-- An octet of a field's value that is text. -/
def value_char (ch : UInt8) (c : basic_parser_v1) : Turn basic_parser_v1 :=
  let lower := to_value_char ch
  match c.fs_ with
  | .h_connection =>
    if lower == 0x6B then return { c with pos_ := 0, fs_ := .h_matching_connection_keep_alive }
    else if lower == 0x63 then return { c with pos_ := 0, fs_ := .h_matching_connection_close }
    else if lower == 0x75 then return { c with pos_ := 0, fs_ := .h_matching_connection_upgrade }
    else if ch == 0x20 || ch == 0x09 || ch == 0x2C then return c
    else if !is_tchar ch then err .bad_value c
    else return { c with fs_ := .h_connection_token }
  | .h_matching_connection_keep_alive =>
    matching parser_str.keep_alive lower .h_connection_token .h_connection_keep_alive c
  | .h_matching_connection_close => matching parser_str.close lower .h_connection_token .h_connection_close c
  | .h_matching_connection_upgrade =>
    matching parser_str.upgrade lower .h_connection_token .h_connection_upgrade c
  | .h_connection_close => connection_option ({ · with connection_close := true }) .h_connection_close_ows ch c
  | .h_connection_close_ows => connection_option_ows ({ · with connection_close := true }) ch c
  | .h_connection_keep_alive =>
    connection_option ({ · with connection_keep_alive := true }) .h_connection_keep_alive_ows ch c
  | .h_connection_keep_alive_ows => connection_option_ows ({ · with connection_keep_alive := true }) ch c
  | .h_connection_upgrade =>
    connection_option ({ · with connection_upgrade := true }) .h_connection_upgrade_ows ch c
  | .h_connection_upgrade_ows => connection_option_ows ({ · with connection_upgrade := true }) ch c
  | .h_connection_token => connection_option id .h_connection_token_ows ch c
  | .h_connection_token_ows => connection_option_ows id ch c
  | .h_content_length0 =>
    if !is_digit ch then err .bad_content_length c
    else return { c with content_length_ := ch.toNat - 0x30, fs_ := .h_content_length }
  | .h_content_length =>
    if ch == 0x20 || ch == 0x09 then return { c with fs_ := .h_content_length_ows }
    else if !is_digit ch then err .bad_content_length c
    else if c.content_length_ > (no_content_length - 10) / 10 then err .bad_content_length c
    else return { c with content_length_ := c.content_length_ * 10 + (ch.toNat - 0x30) }
  | .h_content_length_ows => if ch != 0x20 && ch != 0x09 then err .bad_content_length c else return c
  | .h_transfer_encoding =>
    if lower == 0x63 then return { c with pos_ := 0, fs_ := .h_matching_transfer_encoding_chunked }
    else if lower != 0x20 && lower != 0x09 && lower != 0x2C then
      return { c with fs_ := .h_matching_transfer_encoding_general }
    else return c
  | .h_matching_transfer_encoding_chunked =>
    matching parser_str.chunked lower .h_matching_transfer_encoding_general .h_transfer_encoding_chunked c
  | .h_matching_transfer_encoding_general =>
    if lower == 0x2C then return { c with fs_ := .h_transfer_encoding } else return c
  | .h_transfer_encoding_chunked =>
    if lower != 0x20 && lower != 0x09 && lower != 0x2C then return { c with fs_ := .h_transfer_encoding }
    else return c
  | .h_upgrade => return { c with flags_ := { c.flags_ with upgrade := true }, fs_ := .h_general }
  | _ => return c

/-- The message has been read, or the end of the stream has been seen after it. -/
def complete (c : basic_parser_v1) : Bool := c.s_ == .s_restart || c.s_ == .s_closed_complete

/-- What is left of the message is nothing: the loop ends here. -/
def message_complete (c : basic_parser_v1) : Turn (basic_parser_v1 × Bool) := do
  Exec.emit .advance
  let c ← cb none c
  Exec.emit (.call .on_complete)
  return ({ c with s_ := .s_restart }, true)

def needs_eof (isRequest : Bool) (c : basic_parser_v1) : Bool :=
  if isRequest then false
  else if c.status_code_ / 100 = 1 || c.status_code_ = 204 || c.status_code_ = 304 || c.flags_.skipbody then
    false
  else if c.flags_.chunked || c.content_length_ ≠ no_content_length then false
  else true

def keep_alive (isRequest : Bool) (c : basic_parser_v1) : Bool :=
  if c.http_major_ ≥ 1 && c.http_minor_ ≥ 1 then
    if c.flags_.connection_close then false else !needs_eof isRequest c
  else if !c.flags_.connection_keep_alive then false
  else !needs_eof isRequest c

def hasBody (c : basic_parser_v1) : Bool :=
  c.flags_.chunked || (c.content_length_ > 0 && c.content_length_ ≠ no_content_length)

/-- The header has been read: what follows is decided from it. -/
def headers_done (isRequest : Bool) (c : basic_parser_v1) : Turn (basic_parser_v1 × Bool) := do
  assert c.cb_.isNone
  if c.upgrade_ && (c.flags_.skipbody || !c.hasBody) then message_complete { c with s_ := .s_complete }
  else if c.flags_.skipbody || c.content_length_ = 0 then message_complete { c with s_ := .s_complete }
  else if c.flags_.chunked then return ({ c with s_ := .s_chunk_size0 }, false)
  else if c.content_length_ ≠ no_content_length then return ({ c with s_ := .s_body_identity0 }, false)
  else if !needs_eof isRequest c then message_complete { c with s_ := .s_complete }
  else return ({ c with s_ := .s_body_identity_eof0 }, false)

def headers_almost_done (isRequest : Bool) (what : body_what) (ch : UInt8) (c : basic_parser_v1) :
    Turn (basic_parser_v1 × Bool) := do
  if ch != 0x0A then err .bad_crlf c
  else if c.flags_.trailing then message_complete { c with s_ := .s_complete }
  else if c.flags_.chunked && c.flags_.contentlength then err .illegal_content_length c
  else do
    let c := { c with upgrade_ := c.flags_.upgrade && c.flags_.connection_upgrade }
    Exec.emit (.call (.on_header c.http_major_ c.http_minor_))
    match what with
    | .normal => headers_done isRequest { c with s_ := .s_headers_done }
    | .upgrade =>
      headers_done isRequest
        { c with upgrade_ := true, flags_ := { c.flags_ with skipbody := true }, s_ := .s_headers_done }
    | .skip =>
      headers_done isRequest { c with flags_ := { c.flags_ with skipbody := true }, s_ := .s_headers_done }

/-- The first octet of a field's name, in lower case. -/
def name_char0 (ch : UInt8) (c : basic_parser_v1) : basic_parser_v1 :=
  if ch == 0x63 then { c with pos_ := 0, fs_ := .h_C }
  else if ch == 0x70 then { c with pos_ := 0, fs_ := .h_matching_proxy_connection }
  else if ch == 0x74 then { c with pos_ := 0, fs_ := .h_matching_transfer_encoding }
  else if ch == 0x75 then { c with pos_ := 0, fs_ := .h_matching_upgrade }
  else { c with fs_ := .h_general }

def header_name0 (ch : UInt8) (c : basic_parser_v1) : Turn (basic_parser_v1 × Bool) := do
  if ch == 0x0D then return ({ c with s_ := .s_headers_almost_done }, false)
  else if to_field_char ch == 0 then err .bad_field c
  else do
    let c := name_char0 (to_field_char ch) c
    assert c.cb_.isNone
    let c ← cb (some .call_on_field) c
    return ({ c with s_ := .s_header_name }, false)

def header_name (ch : UInt8) (c : basic_parser_v1) : Turn (basic_parser_v1 × Bool) := do
  if to_field_char ch != 0 then do
    let c ← name_char (to_field_char ch) c
    return (c, false)
  else if ch == 0x3A then do
    let c ← cb none c
    return ({ c with s_ := .s_header_value0 }, false)
  else err .bad_field c

def header_value (ch : UInt8) (c : basic_parser_v1) : Turn (basic_parser_v1 × Bool) := do
  if ch == 0x0D then do
    let c ← cb none c
    return ({ c with s_ := .s_header_value_lf }, false)
  else if to_value_char ch == 0 then err .bad_value c
  else do
    let c ← value_char ch c
    return (c, false)

/-- A value begins: if it is a length, it has not been read before. -/
def value_begins (c : basic_parser_v1) : basic_parser_v1 :=
  if c.fs_ = .h_content_length0 then
    { c with content_length_ := 0, flags_ := { c.flags_ with contentlength := true } }
  else c

def header_value0 (ch : UInt8) (c : basic_parser_v1) : Turn (basic_parser_v1 × Bool) := do
  if ch == 0x20 || ch == 0x09 then return (c, false)
  else if ch == 0x0D then return ({ c with s_ := .s_header_value0_lf }, false)
  else do
    let c := value_begins c
    assert c.cb_.isNone
    let c ← cb (some .call_on_value) c
    header_value ch { c with s_ := .s_header_value }

/-- A line that starts with a space goes on with the value before it, which was empty. -/
def header_value0_almost_done (ch : UInt8) (c : basic_parser_v1) : Turn (basic_parser_v1 × Bool) := do
  if ch == 0x20 || ch == 0x09 then return ({ c with s_ := .s_header_value0 }, false)
  else if c.fs_ = .h_content_length0 then err .bad_content_length c
  else do
    let c := { c with
      flags_ := { c.flags_ with upgrade := c.flags_.upgrade || c.fs_ == field_state.h_upgrade } }
    assert c.cb_.isNone
    Exec.emit (.call (.on_value []))
    header_name0 ch { c with s_ := .s_header_name0 }

/-- What has been recognised of a value that a folded line goes on with. -/
def unfolded : field_state → field_state
  | .h_matching_connection_keep_alive | .h_matching_connection_close | .h_matching_connection_upgrade =>
    .h_connection_token_ows
  | .h_connection_close => .h_connection_close_ows
  | .h_connection_keep_alive => .h_connection_keep_alive_ows
  | .h_connection_upgrade => .h_connection_upgrade_ows
  | .h_content_length => .h_content_length_ows
  | .h_matching_transfer_encoding_chunked => .h_matching_transfer_encoding_general
  | fs => fs

/-- The flags once a value has ended. -/
def ended (flags : parse_flag) : field_state → parse_flag
  | .h_connection_keep_alive | .h_connection_keep_alive_ows => { flags with connection_keep_alive := true }
  | .h_connection_close | .h_connection_close_ows => { flags with connection_close := true }
  | .h_connection_upgrade | .h_connection_upgrade_ows => { flags with connection_upgrade := true }
  | .h_transfer_encoding_chunked | .h_transfer_encoding_chunked_ows => { flags with chunked := true }
  | _ => flags

def header_value_almost_done (ch : UInt8) (c : basic_parser_v1) : Turn (basic_parser_v1 × Bool) := do
  if ch == 0x20 || ch == 0x09 then do
    -- The error of this call is not looked at before the value goes on.
    Exec.emit (.callUnchecked (.on_value (lit " ")))
    return ({ c with fs_ := unfolded c.fs_, s_ := .s_header_value_unfold }, false)
  else header_name0 ch { c with flags_ := ended c.flags_ c.fs_, s_ := .s_header_name0 }

def header_value_unfold (ch : UInt8) (c : basic_parser_v1) : Turn (basic_parser_v1 × Bool) := do
  assert c.cb_.isNone
  let c ← cb (some .call_on_value) c
  header_value ch { c with s_ := .s_header_value }

/-- The part of the body that ends with the buffer or with the message, of which `n` octets are left. -/
def body_identity (n : Nat) (c : basic_parser_v1) : Turn (basic_parser_v1 × Bool) := do
  let k := if n < c.content_length_ then n else c.content_length_
  assert (c.content_length_ ≠ 0 && c.content_length_ ≠ no_content_length)
  let c := { c with content_length_ := c.content_length_ - k }
  skip k
  if c.content_length_ = 0 then message_complete { c with s_ := .s_complete } else return (c, false)

def chunk_data (n : Nat) (c : basic_parser_v1) : Turn (basic_parser_v1 × Bool) := do
  let k := if n < c.content_length_ then n else c.content_length_
  let c := { c with content_length_ := c.content_length_ - k }
  skip k
  if c.content_length_ = 0 then return ({ c with s_ := .s_chunk_data_cr }, false) else return (c, false)

def chunk_size (ch : UInt8) (c : basic_parser_v1) : Turn (basic_parser_v1 × Bool) :=
  if ch == 0x0D then return ({ c with s_ := .s_chunk_size_lf }, false)
  else if ch == 0x3B then return ({ c with s_ := .s_chunk_ext_name0 }, false)
  else
    match unhex ch with
    | none => err .invalid_chunk_size c
    | some v =>
      if c.content_length_ > (no_content_length - 16) / 16 then err .bad_content_length c
      else return ({ c with content_length_ := c.content_length_ * 16 + v }, false)

/-- The first octet of a request. -/
def req_method0 (ch : UInt8) (c : basic_parser_v1) : Turn (basic_parser_v1 × Bool) := do
  if !is_tchar ch then err .bad_method c
  else do
    Exec.emit (.call .on_start)
    assert c.cb_.isNone
    let c ← cb (some .call_on_method) c
    return ({ c with s_ := .s_req_method }, false)

/-- The first octet of a message. -/
def start (isRequest : Bool) (ch : UInt8) (c : basic_parser_v1) : Turn (basic_parser_v1 × Bool) := do
  let c := { c with flags_ := {}, cb_ := none, content_length_ := no_content_length }
  if isRequest then req_method0 ch { c with s_ := .s_req_method0 }
  else if ch != 0x48 then err .bad_version c
  else do
    Exec.emit (.call .on_start)
    return ({ c with s_ := .s_res_H }, false)

/-- One turn of the loop at `ch`, the first of the `n` octets left: the source's switch, with what
    a `goto redo` leads to in the same turn. -/
def turn (isRequest : Bool) (what : body_what) (c : basic_parser_v1) (n : Nat) (ch : UInt8) :
    Turn (basic_parser_v1 × Bool) :=
  match c.s_ with
  | .s_dead | .s_closed_complete => err .connection_closed c
  | .s_req_start => start true ch c
  | .s_req_method0 => req_method0 ch c
  | .s_req_method =>
    if ch == 0x20 then do
      let c ← cb none c
      return ({ c with s_ := .s_req_url0 }, false)
    else if !is_tchar ch then err .bad_method c
    else return (c, false)
  | .s_req_url0 =>
    if ch == 0x20 then err .bad_uri c
    else if !is_text ch then err .bad_uri c
    else do
      assert c.cb_.isNone
      let c ← cb (some .call_on_uri) c
      return ({ c with s_ := .s_req_url }, false)
  | .s_req_url =>
    if ch == 0x20 then do
      let c ← cb none c
      return ({ c with s_ := .s_req_http }, false)
    else if !is_text ch then err .bad_uri c
    else return (c, false)
  | .s_req_http => expect ch 0x48 .bad_version .s_req_http_H c
  | .s_req_http_H => expect ch 0x54 .bad_version .s_req_http_HT c
  | .s_req_http_HT => expect ch 0x54 .bad_version .s_req_http_HTT c
  | .s_req_http_HTT => expect ch 0x50 .bad_version .s_req_http_HTTP c
  | .s_req_http_HTTP => expect ch 0x2F .bad_version .s_req_major c
  | .s_req_major => digit ch .bad_version c { c with http_major_ := ch.toNat - 0x30, s_ := .s_req_dot }
  | .s_req_dot => expect ch 0x2E .bad_version .s_req_minor c
  | .s_req_minor => digit ch .bad_version c { c with http_minor_ := ch.toNat - 0x30, s_ := .s_req_cr }
  | .s_req_cr => expect ch 0x0D .bad_version .s_req_lf c
  | .s_req_lf =>
    if ch != 0x0A then err .bad_crlf c
    else do
      Exec.emit (.call .on_request)
      return ({ c with s_ := .s_header_name0 }, false)
  | .s_res_start => start false ch c
  | .s_res_H => expect ch 0x54 .bad_version .s_res_HT c
  | .s_res_HT => expect ch 0x54 .bad_version .s_res_HTT c
  | .s_res_HTT => expect ch 0x50 .bad_version .s_res_HTTP c
  | .s_res_HTTP => expect ch 0x2F .bad_version .s_res_major c
  | .s_res_major => digit ch .bad_version c { c with http_major_ := ch.toNat - 0x30, s_ := .s_res_dot }
  | .s_res_dot => expect ch 0x2E .bad_version .s_res_minor c
  | .s_res_minor => digit ch .bad_version c { c with http_minor_ := ch.toNat - 0x30, s_ := .s_res_space_1 }
  | .s_res_space_1 => expect ch 0x20 .bad_version .s_res_status0 c
  | .s_res_status0 => digit ch .bad_status c { c with status_code_ := ch.toNat - 0x30, s_ := .s_res_status1 }
  | .s_res_status1 =>
    digit ch .bad_status c { c with
      status_code_ := c.status_code_ * 10 + (ch.toNat - 0x30), s_ := .s_res_status2 }
  | .s_res_status2 =>
    digit ch .bad_status c { c with
      status_code_ := c.status_code_ * 10 + (ch.toNat - 0x30), s_ := .s_res_space_2 }
  | .s_res_space_2 => expect ch 0x20 .bad_status .s_res_reason0 c
  | .s_res_reason0 =>
    if ch == 0x0D then return ({ c with s_ := .s_res_line_lf }, false)
    else if !is_text ch then err .bad_reason c
    else do
      assert c.cb_.isNone
      let c ← cb (some .call_on_reason) c
      return ({ c with s_ := .s_res_reason }, false)
  | .s_res_reason =>
    if ch == 0x0D then do
      let c ← cb none c
      return ({ c with s_ := .s_res_line_lf }, false)
    else if !is_text ch then err .bad_reason c
    else return (c, false)
  | .s_res_line_lf => expect ch 0x0A .bad_crlf .s_res_line_done c
  | .s_res_line_done => do
    Exec.emit (.call (.on_response c.status_code_))
    header_name0 ch { c with s_ := .s_header_name0 }
  | .s_header_name0 => header_name0 ch c
  | .s_header_name => header_name ch c
  | .s_header_value0 => header_value0 ch c
  | .s_header_value => header_value ch c
  | .s_header_value0_lf => expect ch 0x0A .bad_crlf .s_header_value0_almost_done c
  | .s_header_value0_almost_done => header_value0_almost_done ch c
  | .s_header_value_lf => expect ch 0x0A .bad_crlf .s_header_value_almost_done c
  | .s_header_value_almost_done => header_value_almost_done ch c
  | .s_header_value_unfold => header_value_unfold ch c
  | .s_headers_almost_done => headers_almost_done isRequest what ch c
  | .s_headers_done => headers_done isRequest c
  | .s_body_identity0 => do
    assert c.cb_.isNone
    let c ← cb (some .call_on_body) c
    body_identity n { c with s_ := .s_body_identity }
  | .s_body_identity => body_identity n c
  | .s_body_identity_eof0 => do
    assert c.cb_.isNone
    let c ← cb (some .call_on_body) c
    skip n
    return ({ c with s_ := .s_body_identity_eof }, false)
  | .s_body_identity_eof => do
    skip n
    return (c, false)
  | .s_chunk_size0 =>
    match unhex ch with
    | none => err .invalid_chunk_size c
    | some v => return ({ c with content_length_ := v, s_ := .s_chunk_size }, false)
  | .s_chunk_size => chunk_size ch c
  | .s_chunk_ext_name0 =>
    if !is_tchar ch then err .invalid_ext_name c else return ({ c with s_ := .s_chunk_ext_name }, false)
  | .s_chunk_ext_name =>
    if ch == 0x0D then return ({ c with s_ := .s_chunk_size_lf }, false)
    else if ch == 0x3D then return ({ c with s_ := .s_chunk_ext_val }, false)
    else if ch == 0x3B then return ({ c with s_ := .s_chunk_ext_name0 }, false)
    else if !is_tchar ch then err .invalid_ext_name c
    else return (c, false)
  | .s_chunk_ext_val =>
    if ch == 0x0D then return ({ c with s_ := .s_chunk_size_lf }, false) else return (c, false)
  | .s_chunk_size_lf =>
    if ch != 0x0A then err .bad_crlf c
    else if c.content_length_ = 0 then
      return ({ c with flags_ := { c.flags_ with trailing := true }, s_ := .s_header_name0 }, false)
    else return ({ c with s_ := .s_chunk_data0 }, false)
  | .s_chunk_data0 => do
    assert c.cb_.isNone
    let c ← cb (some .call_on_body) c
    chunk_data n { c with s_ := .s_chunk_data }
  | .s_chunk_data => chunk_data n c
  | .s_chunk_data_cr =>
    if ch != 0x0D then err .bad_crlf c
    else do
      let c ← cb none c
      return ({ c with s_ := .s_chunk_data_lf }, false)
  | .s_chunk_data_lf => expect ch 0x0A .bad_crlf .s_chunk_size0 c
  | .s_complete => message_complete c
  | .s_restart =>
    if keep_alive isRequest c then do
      Exec.emit (.callUnchecked .reset)
      start isRequest ch { c with cb_ := none, s_ := if isRequest then .s_req_start else .s_res_start }
    else err .connection_closed { c with s_ := .s_dead }

end basic_parser_v1

end taraxacum.http
