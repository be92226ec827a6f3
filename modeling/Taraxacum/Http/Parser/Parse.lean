import Taraxacum.Http.Parser.V1

open json exec push

namespace taraxacum.http

/-- `dynabuf.consume(n)` on the buffers of `dynabuf.data()`. -/
def consume : Nat → List Bytes → List Bytes
  | _, [] => []
  | n, buffer :: buffers =>
    if n < buffer.length then buffer.drop n :: buffers else consume (n - buffer.length) buffers

/-- What `ec` holds when `parse` fails. -/
inductive error_code where
  | parse (e : parse_error)
  | eof
  | stream (what : Bytes)
  deriving DecidableEq

/-- How `parse` ends: with a complete message and what is left in the buffer and in the
    stream, or with an error. -/
inductive Parsed where
  | message (p : Parser) (dynabuf : List Bytes) (reads : List (List Bytes))
  | failed (e : error_code)
  | aborted
  | undefined

/-- One turn of the loop in `parse` up to where it reads from the stream. -/
inductive Round where
  | complete (p : Parser) (dynabuf : List Bytes)
  | more (p : Parser) (dynabuf : List Bytes) (got_some : Bool)
  | failed (e : error_code)
  | aborted
  | undefined

def parse.round (isRequest : Bool) (p : Parser) (dynabuf : List Bytes) (got_some : Bool) : Round :=
  match p.writeAll isRequest dynabuf with
  | .returned base derived used none =>
    if base.complete then .complete ⟨base, derived⟩ (consume used dynabuf)
    else .more ⟨base, derived⟩ (consume used dynabuf) (got_some || used > 0)
  | .returned _ _ _ (some e) => .failed (.parse e)
  | .aborted => .aborted
  | .undefined => .undefined

/-- What `parse` does at the end of the stream, or when it fails. -/
def parse.last (p : Parser) (dynabuf : List Bytes) (got_some : Bool) : Option Bytes → Parsed
  | some what => .failed (.stream what)
  | none =>
    if !got_some then .failed .eof
    else
      match p.write_eof with
      | (_, some e) => .failed (.parse e)
      | (p, none) => if p.base.complete then .message p dynabuf [] else .aborted

/-- `parse` on a stream whose reads bring the buffers given one after the other, and which then
    fails with `what`, or has ended. -/
def parse (isRequest : Bool) (what : Option Bytes) :
    List (List Bytes) → Parser → List Bytes → Bool → Parsed
  | [], p, dynabuf, got_some =>
    match parse.round isRequest p dynabuf got_some with
    | .complete p dynabuf => .message p dynabuf []
    | .more p dynabuf got_some => parse.last p dynabuf got_some what
    | .failed e => .failed e
    | .aborted => .aborted
    | .undefined => .undefined
  | buffers :: reads, p, dynabuf, got_some =>
    match parse.round isRequest p dynabuf got_some with
    | .complete p dynabuf => .message p dynabuf (buffers :: reads)
    | .more p dynabuf got_some => parse isRequest what reads p (dynabuf ++ buffers) got_some
    | .failed e => .failed e
    | .aborted => .aborted
    | .undefined => .undefined

/-- `read` of one message into an empty buffer. -/
def read (isRequest : Bool) (what : Option Bytes) (reads : List (List Bytes)) : Parsed :=
  parse isRequest what reads (Parser.new isRequest) [] false

/-- The message `parse` leaves, and the octets it does not take. -/
def Parsed.result : Parsed → Option (Message × Bytes)
  | .message p dynabuf reads => some (p.derived.m_, dynabuf.flatten ++ reads.flatten.flatten)
  | _ => none

end taraxacum.http
