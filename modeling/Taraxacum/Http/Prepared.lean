import Taraxacum.Http.Parser.Delivery
import Taraxacum.Http.Targets

open json exec

namespace taraxacum.http

/-- A request as one message of the wire. -/
def Request.toMessage (msg : Request) : Message :=
  { version := msg.version, method := msg.method, url := msg.url, fields := msg.fields, body := msg.body }

/-- What is stored of a field's value is read as it is. -/
theorem Plain.trim {name value : Bytes} (hname : Plain name []) (hvalue : ∀ ch ∈ value, is_text ch = true) :
    Plain name (trim value) where
  name_ne := hname.name_ne
  tchar := hname.tchar
  unlisted := hname.unlisted
  no_length := hname.no_length
  text ch hch := hvalue ch (mem_of_mem_trim hch)
  trimmed := trim_trim value

namespace Fields

variable {fields : Fields}

/-- No field says anything of the body. -/
def AllPlain (fields : Fields) : Prop := ∀ field ∈ fields, Plain field.1 field.2

theorem allPlain_nil : AllPlain [] := by simp [AllPlain]

/-- A field of text whose name is in no list may be inserted. -/
theorem AllPlain.insert (h : fields.AllPlain) {name value : Bytes} (hname : Plain name [])
    (hvalue : ∀ ch ∈ value, is_text ch = true) : (fields.insert name value).AllPlain := by
  intro field hfield
  rcases List.mem_append.mp hfield with hfield | hfield
  · exact h field hfield
  · rw [List.mem_singleton.mp hfield]
    exact hname.trim hvalue

theorem AllPlain.replace (h : fields.AllPlain) {name value : Bytes} (hname : Plain name [])
    (hvalue : ∀ ch ∈ value, is_text ch = true) : (fields.replace name value).AllPlain := by
  apply AllPlain.insert _ hname fun ch hch => hvalue ch (mem_of_mem_trim hch)
  exact fun field hfield => h field (List.mem_of_mem_filter hfield)

/-- Plain fields frame no body. -/
theorem AllPlain.carries (h : fields.AllPlain) : Carries fields .none := by
  induction fields with
  | nil => exact .nil
  | cons field fields ih =>
    obtain ⟨hfield, hfields⟩ := List.forall_mem_cons.mp h
    exact .plain (.plain hfield) (ih hfields)

/-- Plain fields and one that frames the body after them are what a parser takes. -/
theorem AllPlain.carries_append (h : fields.AllPlain) {field : Bytes × Bytes} {framing : Framing}
    (hfield : FieldOf field framing) : Carries (fields ++ [field]) framing := by
  induction fields with
  | nil => exact .framed hfield .nil
  | cons first fields ih =>
    obtain ⟨hfirst, hfields⟩ := List.forall_mem_cons.mp h
    exact .plain (.plain hfirst) (ih hfields)

end Fields

/-- A request that a start line can hold, with fields of its own that leave the body to `prepare`. -/
structure Request.Sendable (msg : Request) : Prop where
  version : msg.version = 11
  method : msg.method ≠ [] ∧ ∀ ch ∈ msg.method, is_tchar ch = true
  url : msg.url ≠ [] ∧ ∀ ch ∈ msg.url, is_text ch = true ∧ ch ≠ 0x20
  fields : msg.fields.AllPlain
  body : msg.body.length < 18446744073709551610

/-- The fields a request has when `prepare` has said how long its body is. -/
def Request.sized (msg : Request) : Request :=
  if msg.body.length > 0 || ci_equal msg.method (lit "POST") then
    { msg with fields := msg.fields.insert (lit "Content-Length") (decimal msg.body.length) }
  else msg

/-- A request that `prepare` returns has a `Content-Length` that is right, where it needs one. -/
theorem prepare_sized {ε : Type} {msg req : Request}
    (h : (prepare (some msg.body.length) msg : Exec ε Exception Request).outcome = .returned req) :
      req = msg.sized := by
  rw [Request.sized]
  cases hlength : decide (msg.body.length > 0) || ci_equal msg.method (lit "POST")
  all_goals
    simp only [prepare, hlength, Bool.false_eq_true, if_true, if_false] at h ⊢
    split_ifs at h <;> cases h
    rfl

/-- A request that `prepare` has said the length of can be read. -/
theorem Request.Sendable.wellFormed {msg : Request} (h : msg.Sendable) :
    ∃ framing, framing ≠ .chunked ∧ msg.sized.toMessage.WellFormed true framing := by
  have hstart : ∀ fields, ({ msg with fields } : Request).toMessage.Startable true := fun fields =>
    { version := .inr h.version
      method := fun _ => h.method
      url := fun _ => h.url
      status := fun h => by cases h
      reason := fun h => by cases h
      request := fun _ => ⟨rfl, rfl⟩
      response := fun h => by cases h }
  rw [sized]
  split_ifs with hlength
  · have hfield : FieldOf (lit "Content-Length", decimal msg.body.length) (.length msg.body.length) :=
      .length (by decide) h.body
    have hinsert : msg.fields.insert (lit "Content-Length") (decimal msg.body.length) =
        msg.fields ++ [(lit "Content-Length", decimal msg.body.length)] := by
      rw [Fields.insert, hfield.trimmed]
    rw [hinsert]
    exact ⟨.length msg.body.length, by simp, hstart _, h.fields.carries_append hfield, rfl⟩
  · have hempty : msg.body = [] := by
      simp only [Bool.or_eq_true, decide_eq_true_eq, not_or] at hlength
      exact List.eq_nil_of_length_eq_zero (by omega)
    exact ⟨.none, by simp, hstart msg.fields, h.fields.carries, .inl rfl, hempty⟩

/-- The field that frames a body is not `Connection`. -/
theorem FieldOf.connection {field : Bytes × Bytes} {framing : Framing} (h : FieldOf field framing) :
    ci_equal (lit "Connection") field.1 = false := by
  have hword : (lit "Connection").map tolower = lit "connection" := by decide
  rw [ci_equal, hword, h.lower, beq_eq_false_iff_ne]
  intro hname
  cases h with
  | plain h =>
    have hunlisted := h.unlisted
    rw [← hname] at hunlisted
    exact absurd hunlisted (by decide)
  | length hlength =>
    rw [hlength] at hname
    exact absurd hname (by decide)
  | chunked hchunked =>
    rw [hchunked] at hname
    exact absurd hname (by decide)

/-- Fields that are read back have no `Connection`, so that the connection is kept. -/
theorem Carries.connection {fields : Fields} {framing : Framing} (h : Carries fields framing) :
    fields.get (lit "Connection") = [] := by
  induction h with
  | nil => rfl
  | plain hfield _ ih | framed hfield _ ih =>
    rw [Fields.get_cons, hfield.connection]
    exact ih

/-- The request is written without an error, and whoever reads it from the stream reads it as it was
    and leaves what follows it. A read brings one buffer, cut anywhere, or several buffers where
    nothing follows. -/
structure Request.Arrives (req : Request) : Prop where
  written : ∀ mode, (write mode true req.toMessage).outcome = .returned ()
  read : ∀ (what : Option Bytes) (rest : Bytes) (reads : List (List Bytes)), (∀ buffers ∈ reads, [] ∉ buffers) →
    reads.flatten.flatten = octets true req.toMessage ++ rest →
      (∀ buffers ∈ reads, buffers.length ≤ 1) ∨ rest = [] →
        (http.read true what reads).result = some (req.toMessage, rest)

/-- A request that `prepare` has made is read by the peer as it was sent, with what follows it left
    over, if it fits the limits of the parser. -/
theorem Request.Sendable.arrives {msg : Request} (h : msg.Sendable) (hfits : msg.sized.toMessage.Fits true) :
    msg.sized.Arrives := by
  obtain ⟨framing, hframing, hwellFormed⟩ := h.wellFormed
  have hchunked : msg.sized.toMessage.chunked = false := by
    rw [hwellFormed.fields.chunked, decide_eq_false hframing]
  constructor
  · intro mode
    have hversion : msg.sized.toMessage.version = 11 := by
      rw [sized]
      split_ifs <;> exact h.version
    have hclose : msg.sized.toMessage.close = false := by
      rw [Message.close, hwellFormed.fields.connection, hversion]
      rfl
    have htext : version_text msg.sized.toMessage.version = some (lit "HTTP/1.1") := by
      rw [hversion, version_text]
    rw [write, write_start_line_eq mode true htext, hchunked, hclose]
    rfl
  · obtain ⟨s, c, p, hs, hcompletes, hm⟩ := basic_parser_v1.completes_octets hwellFormed (Parser.new_start true)
      (Parser.new_untouched true) hfits.bodyRoom hfits.room
    rw [Message.leftover, hchunked, Bool.false_and, if_neg Bool.false_ne_true, List.append_nil] at hs
    intro what rest reads hreads hoctets hcut
    rw [hs] at hoctets
    rw [Parser.read_completes hcompletes what hreads hoctets hcut, hm]

/-- `n` takes no more digits than the power of ten it is below. -/
theorem length_decimal_le (k : Nat) {n : Nat} (h : n < 10 ^ (k + 1)) : (decimal n).length ≤ k + 1 := by
  induction k generalizing n with
  | zero =>
    rw [decimal_of_lt (by omega)]
    exact Nat.le_refl 1
  | succ k ih =>
    by_cases hlt : n < 10
    · rw [decimal_of_lt hlt]
      simp
    · rw [decimal_of_le (by omega), List.length_append, List.length_singleton]
      have hdiv : n / 10 < 10 ^ (k + 1) := Nat.div_lt_of_lt_mul (by rwa [Nat.mul_comm, ← Nat.pow_succ])
      have hlength := ih hdiv
      omega

/-- What the Host field of a client holds. -/
theorem text_of_host {host : Bytes} (hhost : ∀ ch ∈ host, is_text ch = true) (port : UInt16) :
    ∀ ch ∈ host ++ lit ":" ++ decimal port.toNat, is_text ch = true := by
  intro ch hch
  rcases List.mem_append.mp hch with hch | hch
  · rcases List.mem_append.mp hch with hch | hch
    · exact hhost ch hch
    · rw [List.mem_singleton.mp hch]
      rfl
  · exact is_text_of_is_tchar ch (is_tchar_of_is_digit ch (is_digit_of_mem_decimal _ ch hch))

/-- A host with its port is at most six octets longer. -/
theorem length_of_host (host : Bytes) (port : UInt16) :
    (host ++ lit ":" ++ decimal port.toNat).length ≤ host.length + 6 := by
  have hport : (decimal port.toNat).length ≤ 5 := length_decimal_le 4 (by have := port.toNat_lt; omega)
  simp only [List.length_append, show (lit ":").length = 1 from rfl]
  omega

/-- Names of fields the clients set, which say nothing of the body. -/
theorem plain_names : ∀ name ∈ [lit "Host", lit "User-Agent", lit "Content-Type", lit "Accept"],
      Plain name [] := by
  intro name hname
  simp only [List.mem_cons, List.not_mem_nil, or_false] at hname
  rcases hname with rfl | rfl | rfl | rfl <;>
    exact ⟨by decide +kernel, by decide +kernel, by decide +kernel, by decide +kernel,
      by decide +kernel, by decide +kernel⟩

/-- The event does nothing to the network. -/
def Local (e : Event) : Prop := ∃ text, e = .cout text

/-- What is done locally writes no request. -/
theorem Local.request_eq_none {e : Event} (h : Local e) : e.request = none := by
  obtain ⟨text, rfl⟩ := h
  rfl

/-- A call without a written request has none in its list. -/
theorem requests_of_none {α : Type} {call : Call α} (h : call.Emits fun e => e.request = none) :
    call.events.filterMap Event.request = [] := List.filterMap_eq_nil_iff.mpr h

/-- What stays local writes no request. -/
theorem requests_of_local {α : Type} {call : Call α} (h : call.Emits Local) :
    call.events.filterMap Event.request = [] := requests_of_none fun e he => (h e he).request_eq_none

/-- Preparing a request does nothing that the server sees. -/
theorem prepare_local {content_length : Option Nat} {msg : Request} (hversion : msg.version = 11)
    (hfields : msg.fields.Unreserved) : (prepare content_length msg : Call Request).Emits Local := by
  obtain ⟨fields, hprepare⟩ := prepare_returns Event content_length msg hversion hfields
  rw [hprepare]
  exact .pure _

namespace Client

variable {α : Type} {client : Client α}

/-- What a client does besides its exchange stays local. -/
structure Prints (client : Client α) : Prop where
  announce : client.announce.Emits Local
  unresolved : client.unresolved.Emits Local
  connected : client.connected.Emits Local
  request : ∀ port, (client.request port).Emits Local
  received : ∀ resp, (client.received resp).Emits Local
  failed : ∀ e, (client.failed e).Emits Local

/-- Without its peer a client writes nothing. -/
theorem Prints.requests_unconnected (h : client.Prints) (hquiet : client.Quiet) {ex : Exchange}
    (hconnected : ¬ ex.Connected) : requests (client.run ex) = [] := by
  rw [requests, Client.run, Exec.filterMap_bind_of_returned hquiet.announce (requests_of_local h.announce)]
  rcases ex.cases with ⟨what, hconnect⟩ | ⟨hconnect, what, hendpoint⟩ | ⟨hconnect, port, what, hendpoint, -⟩ |
    ⟨hconnect, port, resp, hendpoint, -⟩
  · simp only [hconnect, result, Exec.attempt_emit_bind, Exec.attempt_raise, bind_assoc, pure_bind]
    rw [Exec.filterMap_bind_of_returned (Exec.emit_outcome _) rfl]
    exact requests_of_local h.unresolved
  · simp only [hconnect, hendpoint, result, Exec.attempt_emit_bind, Exec.attempt_pure, bind_assoc, pure_bind,
      Exec.raise_bind]
    rw [Exec.filterMap_bind_of_returned (Exec.emit_outcome _) rfl,
      Exec.filterMap_bind_of_returned hquiet.connected (requests_of_local h.connected)]
    rfl
  · exact absurd ⟨hconnect, port, hendpoint⟩ hconnected
  · exact absurd ⟨hconnect, port, hendpoint⟩ hconnected

/-- With its peer there a client writes one request, the one it prepares for the remote port. -/
theorem Prints.requests_connected (h : client.Prints) (hquiet : client.Quiet) {ex : Exchange} {port : UInt16}
    {req : Request} (hconnect : ex.connect = .ok ()) (hendpoint : ex.remote_endpoint = .ok port)
    (hreq : (client.request port).outcome = .returned req) : requests (client.run ex) = [req] := by
  rw [requests, Client.run, Exec.filterMap_bind_of_returned hquiet.announce (requests_of_local h.announce)]
  simp only [hconnect, hendpoint, result, Exec.attempt_emit_bind, Exec.attempt_pure, bind_assoc, pure_bind,
    catchRuntimeError]
  rw [Exec.filterMap_bind_of_returned (Exec.emit_outcome _) rfl,
    Exec.filterMap_bind_of_returned hquiet.connected (requests_of_local h.connected),
    Exec.filterMap_bind_of_returned hreq (requests_of_local (h.request port))]
  -- What follows the write stays local but for the read.
  have hafter : (catchRuntimeError (do
      result ex.write
      Exec.emit .read
      let resp ← result ex.read
      client.received resp) client.failed).Emits fun e => e.request = none := by
    apply catchRuntimeError_emits
    · refine .bind (result_emits _) fun _ _ => .bind (.emit rfl) fun _ _ => .bind (result_emits _)
        fun resp _ => ?_
      exact fun e he => (h.received resp e he).request_eq_none
    · exact fun e e' he' => (h.failed e e' he').request_eq_none
  rw [Exec.emit_bind_events, List.filterMap_cons_some (show Event.request (.write req) = some req from rfl)]
  exact congrArg (req :: ·) (requests_of_none hafter)

end Client

end taraxacum.http
