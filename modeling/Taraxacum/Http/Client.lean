import Taraxacum.Event
import Taraxacum.Http.Write

open json exec

namespace taraxacum

namespace http

/-- How each step of one exchange with a server goes: it succeeds, or throws a
    `system_error` with the text given. Resolving the host is part of `connect`. -/
structure Exchange where
  connect : Except Bytes Unit
  remote_endpoint : Except Bytes UInt16
  write : Except Bytes Unit
  read : Except Bytes Message

/-- `operator<<` on `std::cout`: a message that ends the connection is no error there. -/
def print (mode : Assertions) (isRequest : Bool) (msg : Message) : Call Unit :=
  (write mode isRequest msg).within .cout fun | .eof => pure ()

/-- The message has a version that the assertion on it lets pass. -/
def Printable (mode : Assertions) (msg : Message) : Prop :=
  mode = .enabled → msg.version = 10 ∨ msg.version = 11

/-- A message of a printable version is printed, and that it ends the connection is no error. -/
theorem print_outcome {mode : Assertions} {msg : Message} (h : Printable mode msg) (isRequest : Bool) :
    (print mode isRequest msg).outcome = .returned () := by
  have hwrite := write_outcome mode isRequest msg fun hmode => version_text_ne_none (h hmode)
  rcases hwrite with hreturned | heof
  · simp only [print, Exec.within, hreturned]
  · simp only [print, Exec.within, heof, Exec.pure_outcome]

/-- A message of another version is not printed: the process stops. -/
theorem print_aborts {mode : Assertions} {msg : Message} (h : ¬ Printable mode msg) (isRequest : Bool) :
    print mode isRequest msg = Exec.abort := by
  obtain ⟨rfl, hversion⟩ := Classical.not_imp.mp h
  rw [not_or] at hversion
  rw [print, write_aborts isRequest (version_text_eq_none hversion.1 hversion.2)]
  rfl

/-- What is printed goes to `std::cout` alone. -/
theorem print_emits {P : Event → Prop} (hcout : ∀ text, P (.cout text)) (mode : Assertions) (isRequest : Bool)
    (msg : Message) : (print mode isRequest msg).Emits P :=
  .within hcout fun | .eof => .pure ()

def result {α : Type} : Except Bytes α → Call α
  | .ok a => pure a
  | .error what => Exec.raise (.system_error what)

/-- An HTTP client operation: what it prints before connecting, the value it
    leaves with when it cannot connect, what it prints once connected, the request it
    prepares for the remote port, and what it does with the response or with a
    `std::runtime_error` of the last two steps. -/
structure Client (α : Type) where
  host : Bytes
  port : Bytes
  announce : Call Unit
  unresolved : Call α
  connected : Call Unit
  request : UInt16 → Call Request
  received : Message → Call α
  failed : Exception → Call α

def Client.run {α : Type} (client : Client α) (ex : Exchange) : Call α := do
  client.announce
  match ← Exec.attempt (do Exec.emit (.connect client.host client.port); result ex.connect) with
  | .error _ => client.unresolved
  | .ok () => do
    client.connected
    -- `remote_endpoint` and `prepare` stand between the two `try` blocks.
    let port ← result ex.remote_endpoint
    let req ← client.request port
    catchRuntimeError
      (do
        Exec.emit (.write req)
        result ex.write
        Exec.emit .read
        let resp ← result ex.read
        client.received resp)
      client.failed

/-- A client operation whose prints and preparation cannot fail. -/
structure Client.Quiet {α : Type} (client : Client α) : Prop where
  announce : client.announce.outcome = .returned ()
  connected : client.connected.outcome = .returned ()
  request : ∀ port, ∃ req, (client.request port).outcome = .returned req

/-- How the two steps of the second `try` block go, one after the other. -/
def Exchange.reply (ex : Exchange) : Except Bytes Message :=
  match ex.write with
  | .ok () => ex.read
  | .error what => .error what

/-- Every step of the exchange succeeds, and the server's response is `resp`. -/
structure Exchange.Succeeds (ex : Exchange) (resp : Message) : Prop where
  connect : ex.connect = .ok ()
  remote_endpoint : ∃ port, ex.remote_endpoint = .ok port
  reply : ex.reply = .ok resp

/-- An exchange in which every step goes well. -/
def Exchange.answering (port : UInt16) (resp : Message) : Exchange :=
  { connect := .ok (), remote_endpoint := .ok port, write := .ok (), read := .ok resp }

/-- Such an exchange brings its response. -/
theorem Exchange.answering_succeeds (port : UInt16) (resp : Message) : (answering port resp).Succeeds resp :=
  ⟨rfl, ⟨port, rfl⟩, rfl⟩

/-- The peer is there when `connect` is done and still there when its port is asked for. -/
structure Exchange.Connected (ex : Exchange) : Prop where
  connect : ex.connect = .ok ()
  remote_endpoint : ∃ port, ex.remote_endpoint = .ok port

section
variable {α : Type} {client : Client α}

/-- Where `connect` throws, the client leaves with the value it has for that. -/
theorem Client.run_unresolved (hquiet : client.Quiet) {ex : Exchange} {what : Bytes}
    (hconnect : ex.connect = .error what) : (client.run ex).outcome = client.unresolved.outcome := by
  rw [Client.run, Exec.bind_outcome_of_returned hquiet.announce]
  simp [hconnect, result]

/-- A peer that is gone before `remote_endpoint` asks for it: nothing catches
    what that throws. -/
theorem Client.run_unconnected (hquiet : client.Quiet) {ex : Exchange} {what : Bytes}
    (hconnect : ex.connect = .ok ()) (hendpoint : ex.remote_endpoint = .error what) :
    (client.run ex).outcome = .threw (.system_error what) := by
  rw [Client.run, Exec.bind_outcome_of_returned hquiet.announce]
  simp only [hconnect, hendpoint, result, Exec.attempt_emit_bind, Exec.attempt_pure, bind_assoc,
    pure_bind, Exec.raise_bind, Exec.emit_bind_outcome]
  rw [Exec.bind_outcome_of_returned hquiet.connected, Exec.raise_outcome]

/-- With the peer there, what matters is how the second `try` block goes. -/
private theorem Client.run_connected (hquiet : client.Quiet) {ex : Exchange} {port : UInt16}
    (hconnect : ex.connect = .ok ()) (hendpoint : ex.remote_endpoint = .ok port) :
    (client.run ex).outcome = match ex.reply with
      | .ok resp => (catchRuntimeError (client.received resp) client.failed).outcome
      | .error what => (client.failed (.system_error what)).outcome := by
  obtain ⟨req, hrequest⟩ := hquiet.request port
  rw [Client.run, Exec.bind_outcome_of_returned hquiet.announce]
  simp only [hconnect, hendpoint, result, Exec.attempt_emit_bind, Exec.attempt_pure, bind_assoc,
    pure_bind, Exec.emit_bind_outcome]
  rw [Exec.bind_outcome_of_returned hquiet.connected, Exec.bind_outcome_of_returned hrequest]
  cases hwrite : ex.write with
  | error what => simp [Exchange.reply, hwrite, catchRuntimeError, Exception.isRuntimeError]
  | ok _ =>
    cases hread : ex.read with
    | error what => simp [Exchange.reply, hwrite, hread, catchRuntimeError, Exception.isRuntimeError]
    | ok resp => simp [Exchange.reply, hwrite, hread, catchRuntimeError]

/-- What `write` or `read` throws is a `std::runtime_error`, and caught as one. -/
theorem Client.run_failed (hquiet : client.Quiet) {ex : Exchange} {port : UInt16} {what : Bytes}
    (hconnect : ex.connect = .ok ()) (hendpoint : ex.remote_endpoint = .ok port)
    (hreply : ex.reply = .error what) :
    (client.run ex).outcome = (client.failed (.system_error what)).outcome := by
  rw [Client.run_connected hquiet hconnect hendpoint, hreply]

/-- Once the response is there, what the client does with it decides how it ends. -/
theorem Client.run_received (hquiet : client.Quiet) {ex : Exchange} {port : UInt16} {resp : Message}
    (hconnect : ex.connect = .ok ()) (hendpoint : ex.remote_endpoint = .ok port)
    (hreply : ex.reply = .ok resp) :
    (client.run ex).outcome = (catchRuntimeError (client.received resp) client.failed).outcome := by
  rw [Client.run_connected hquiet hconnect hendpoint, hreply]

end

namespace Exchange

variable {ex : Exchange}

/-- Every outcome of an exchange is one of four. -/
theorem cases (ex : Exchange) :
    (∃ what, ex.connect = .error what) ∨
    (ex.connect = .ok () ∧ ∃ what, ex.remote_endpoint = .error what) ∨
    (ex.connect = .ok () ∧ ∃ port what, ex.remote_endpoint = .ok port ∧ ex.reply = .error what) ∨
    (ex.connect = .ok () ∧ ∃ port resp, ex.remote_endpoint = .ok port ∧ ex.reply = .ok resp) := by
  cases hconnect : ex.connect with
  | error what => exact .inl ⟨what, rfl⟩
  | ok =>
    cases hendpoint : ex.remote_endpoint with
    | error what => exact .inr (.inl ⟨rfl, what, rfl⟩)
    | ok port =>
      cases hreply : ex.reply with
      | error what => exact .inr (.inr (.inl ⟨rfl, port, what, rfl, rfl⟩))
      | ok resp => exact .inr (.inr (.inr ⟨rfl, port, resp, rfl, rfl⟩))

/-- An exchange that does not connect brings no response. -/
theorem not_succeeds_of_connect {what : Bytes} (h : ex.connect = .error what) (resp : Message) :
    ¬ ex.Succeeds resp := by
  intro hsucceeds
  have hconnect := hsucceeds.connect
  rw [h] at hconnect
  cases hconnect

/-- An exchange whose request or response fails brings no response. -/
theorem not_succeeds_of_reply {what : Bytes} (h : ex.reply = .error what) (resp : Message) :
    ¬ ex.Succeeds resp := by
  intro hsucceeds
  have hreply := hsucceeds.reply
  rw [h] at hreply
  cases hreply

/-- A peer that is there has let the client connect. -/
theorem Connected.connect_ne {what : Bytes} (h : ex.Connected) : ex.connect ≠ .error what := by
  rw [h.connect]
  exact nofun

/-- A peer that is there can be asked for its port. -/
theorem Connected.remote_endpoint_ne {what : Bytes} (h : ex.Connected) :
    ex.remote_endpoint ≠ .error what := by
  obtain ⟨port, hport⟩ := h.remote_endpoint
  rw [hport]
  exact nofun

end Exchange

end http

end taraxacum
