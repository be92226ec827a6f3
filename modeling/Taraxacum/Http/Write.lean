import Taraxacum.Hex
import Taraxacum.Http.Message

open json exec

namespace taraxacum.http

def crlf : Bytes := lit "\r\n"

/-- What `write` leaves in `ec` after a message that ends the connection. -/
inductive WriteError where
  | eof
  deriving DecidableEq

/-- A message's version in its start line. -/
def version_text : Nat → Option Bytes
  | 10 => some (lit "HTTP/1.0")
  | 11 => some (lit "HTTP/1.1")
  | _ => none

/-- With assertions out, a version that has no text leaves it away, in a request with the end
    of the line. -/
def write_start_line (mode : Assertions) (isRequest : Bool) (msg : Message) : Exec Bytes WriteError Bytes := do
  assert mode (msg.version == 10 || msg.version == 11)
  let version := version_text msg.version
  return if isRequest then
    msg.method ++ lit " " ++ msg.url ++ version.elim [] fun text => lit " " ++ text ++ crlf
    else (version.elim [] fun text => text ++ lit " ") ++ decimal msg.status ++ lit " " ++ msg.reason ++ crlf

def write_field (field : Bytes × Bytes) : Bytes := field.1 ++ lit ": " ++ field.2 ++ crlf

def write_fields (fields : Fields) : Bytes := fields.flatMap write_field

/-- The size of a chunk and the end of its line. -/
def chunk_encode_delim (n : Nat) : Bytes := hex.text n ++ crlf

def chunk_encode (fin : Bool) (buffers : Bytes) : Bytes :=
  chunk_encode_delim buffers.length ++ buffers ++ if fin then lit "\r\n0\r\n\r\n" else crlf

def chunk_encode_final : Bytes := lit "0\r\n\r\n"

/-- `write_preparation::chunked`. -/
def Message.chunked (msg : Message) : Bool :=
  token_list.exists_ (msg.fields.get (lit "Transfer-Encoding")) (lit "chunked")

/-- `write_preparation::close`. -/
def Message.close (msg : Message) : Bool :=
  token_list.exists_ (msg.fields.get (lit "Connection")) (lit "close") ||
    (msg.version < 11 && !msg.fields.exists_ (lit "Content-Length"))

/-- A message whose body's writer has all of it in one buffer, on a stream that takes everything;
    an event is what one call of `boost::asio::write` is given. -/
def write (mode : Assertions) (isRequest : Bool) (msg : Message) : Exec Bytes WriteError Unit := do
  let start_line ← write_start_line mode isRequest msg
  let sb := start_line ++ write_fields msg.fields ++ crlf
  Exec.emit (sb ++ if msg.chunked then chunk_encode false msg.body else msg.body)
  if msg.chunked then Exec.emit chunk_encode_final
  if msg.close then Exec.raise .eof

/-- The octets a message is on the wire. -/
def octets (isRequest : Bool) (msg : Message) : Bytes := (write .enabled isRequest msg).events.flatten

/-- A start line ends where the fields begin. -/
def start_line (isRequest : Bool) (msg : Message) (version : Bytes) : Bytes :=
  if isRequest then msg.method ++ lit " " ++ msg.url ++ lit " " ++ version ++ crlf
  else version ++ lit " " ++ decimal msg.status ++ lit " " ++ msg.reason ++ crlf

/-- The body as it is written. -/
def Message.coded (msg : Message) : Bytes :=
  if msg.chunked then chunk_encode false msg.body ++ chunk_encode_final else msg.body

/-- The assertion of `write_start_line` lets exactly those versions pass that it has a text for. -/
theorem version_text_isSome {version : Nat} : (version_text version).isSome =
      (version == 10 || version == 11) := by
  unfold version_text
  split <;> simp_all

/-- The two versions of HTTP/1 have a text. -/
theorem version_text_ne_none {version : Nat} (h : version = 10 ∨ version = 11) :
    version_text version ≠ none := by
  rcases h with rfl | rfl <;> exact nofun

/-- No other version has one. -/
theorem version_text_eq_none {version : Nat} (hten : version ≠ 10) (heleven : version ≠ 11) :
    version_text version = none := by
  rw [← Option.isNone_iff_eq_none, ← Bool.not_eq_false', ← Option.not_isSome, Bool.not_not, version_text_isSome]
  simp [hten, heleven]

/-- A start line is written in either mode when its version has a text. -/
theorem write_start_line_eq (mode : Assertions) (isRequest : Bool) {msg : Message} {version : Bytes}
    (h : version_text msg.version = some version) :
    write_start_line mode isRequest msg = pure (start_line isRequest msg version) := by
  have hversion : (msg.version == 10 || msg.version == 11) = true := by
    rw [← version_text_isSome, h, Option.isSome_some]
  simp only [write_start_line, hversion, assert, if_true, h, Option.elim_some, pure_bind, start_line]
  simp only [List.append_assoc]

/-- With assertions in, a version without a text stops the process before anything is written. -/
theorem write_aborts (isRequest : Bool) {msg : Message} (h : version_text msg.version = none) :
    write .enabled isRequest msg = Exec.abort := by
  have hversion : (msg.version == 10 || msg.version == 11) = false := by
    rw [← version_text_isSome, h, Option.isSome_none]
  simp only [write, write_start_line, hversion, assert, Bool.false_eq_true, if_false, Exec.abort_bind]

/-- What `write` puts on the wire: the start line, the fields with the empty line after them, and
    the body as it is coded. -/
theorem octets_eq (isRequest : Bool) {msg : Message} {version : Bytes}
    (h : version_text msg.version = some version) :
    octets isRequest msg = start_line isRequest msg version ++ (write_fields msg.fields ++ crlf) ++
      msg.coded := by
  rw [octets, write, write_start_line_eq .enabled isRequest h, pure_bind, Message.coded]
  cases hchunked : msg.chunked <;> cases hclose : msg.close <;>
    simp [Exec.bind_def, Exec.bind, Exec.emit, Exec.raise, Exec.pure_def]

/-- `write` ends by itself, with an error where the message ends the connection, unless an assertion
    stops it. -/
theorem write_outcome (mode : Assertions) (isRequest : Bool) (msg : Message)
    (h : mode = .enabled → version_text msg.version ≠ none) :
    (write mode isRequest msg).outcome = .returned () ∨ (write mode isRequest msg).outcome = .threw .eof := by
  have hassert : ∀ ε χ, (assert mode (msg.version == 10 || msg.version == 11) : Exec ε χ Unit) = pure () := by
    intro ε χ
    rw [← version_text_isSome]
    cases hversion : version_text msg.version with
    | some text => rfl
    | none =>
      cases mode with
      | disabled => rfl
      | enabled => exact absurd hversion (h rfl)
  simp only [write, write_start_line, hassert, pure_bind]
  cases hchunked : msg.chunked <;> cases hclose : msg.close <;>
    simp [Exec.bind_def, Exec.bind, Exec.emit, Exec.raise, Exec.pure_def]

end taraxacum.http
