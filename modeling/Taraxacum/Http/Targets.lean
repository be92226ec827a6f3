import Taraxacum.ServiceDiscovery.GetHttp

open json exec

namespace taraxacum

/-- The event is no request to any other server, and asks for no other url. -/
def Event.Targets (host port url : Bytes) : Event → Prop
  | .connect h p => h = host ∧ p = port
  | .write request => request.url = url
  | _ => True

instance (host port url : Bytes) : DecidablePred (Event.Targets host port url) := fun event => by
  cases event <;> unfold Event.Targets <;> infer_instance

/-- Printing goes to no host. -/
theorem cout_targets (host port url text : Bytes) : (cout text).Emits (Event.Targets host port url) :=
  .emit trivial

namespace http

section
variable {α : Type} {client : Client α} {P : Event → Prop}

/-- A client operation whose own steps emit only what satisfies `P`. -/
structure Client.Within (client : Client α) (P : Event → Prop) : Prop where
  announce : client.announce.Emits P
  connect : P (.connect client.host client.port)
  unresolved : client.unresolved.Emits P
  connected : client.connected.Emits P
  request : ∀ port, (client.request port).Emits P ∧
    ∀ req, (client.request port).outcome = .returned req → P (.write req)
  read : P .read
  received : ∀ resp, (client.received resp).Emits P
  failed : ∀ e, (client.failed e).Emits P

/-- How a step ends shows in no event. -/
theorem result_emits (r : Except Bytes α) : (result r).Emits P := by
  cases r with
  | ok a => exact .pure a
  | error what => exact .raise _

/-- A caught exception adds what its handler emits. -/
theorem catchRuntimeError_emits {body : Call α} {handler : Exception → Call α} (hbody : body.Emits P)
    (hhandler : ∀ e, (handler e).Emits P) : (catchRuntimeError body handler).Emits P := by
  refine .bind hbody.attempt fun ended _ => ?_
  cases ended with
  | ok a => exact .pure a
  | error e =>
    by_cases hruntime : e.isRuntimeError = true
    · simpa only [hruntime, if_true] using hhandler e
    · simp only [hruntime]
      exact .raise e

/-- The same of the whole operation, however the exchange goes. -/
theorem Client.run_emits (hwithin : client.Within P) (ex : Exchange) : (client.run ex).Emits P := by
  have hconnect : (do Exec.emit (.connect client.host client.port); result ex.connect : Call Unit).Emits P :=
    .bind (.emit hwithin.connect) fun _ _ => result_emits _
  refine .bind hwithin.announce fun _ _ => ?_
  refine .bind hconnect.attempt fun connected _ => ?_
  cases connected with
  | error e => exact hwithin.unresolved
  | ok _ =>
    refine .bind hwithin.connected fun _ _ => ?_
    refine .bind (result_emits _) fun port _ => ?_
    obtain ⟨hprepare, hwrite⟩ := hwithin.request port
    refine .bind hprepare fun req hreq => ?_
    apply catchRuntimeError_emits
    · refine .bind (.emit (hwrite req hreq)) fun _ _ => ?_
      refine .bind (result_emits _) fun _ _ => ?_
      refine .bind (.emit hwithin.read) fun _ _ => ?_
      refine .bind (result_emits _) fun resp _ => ?_
      exact hwithin.received resp
    · exact hwithin.failed

/-- The server is always asked for. -/
theorem Client.connect_mem (hannounce : client.announce.outcome = .returned ()) (ex : Exchange) :
    .connect client.host client.port ∈ (client.run ex).events := by
  rw [Client.run, Exec.bind_events_of_returned hannounce]
  apply List.mem_append_right
  apply Exec.mem_bind_events
  rw [Exec.attempt_events, Exec.emit_bind_events]
  exact List.mem_cons_self ..

end

end http

open http

/-- `GetHttp` talks to the server it is given and asks for the url it is given. -/
theorem GetHttp.targets (url host port : Bytes) (ex : Exchange) :
    (GetHttp url host port ex).Emits (Event.Targets host port url) := by
  apply Client.run_emits
  constructor
  · exact cout_targets _ _ _ _
  · exact ⟨rfl, rfl⟩
  · exact .bind (cout_targets _ _ _ _) fun _ _ => .pure _
  · exact cout_targets _ _ _ _
  · intro endpoint
    obtain ⟨fields, hrequest⟩ := request_returns url host endpoint
    change (GetHttp.request url host endpoint).Emits _ ∧
      ∀ req, (GetHttp.request url host endpoint).outcome = .returned req → _
    rw [hrequest]
    refine ⟨.pure _, fun req hreq => ?_⟩
    cases hreq
    rfl
  · trivial
  · exact fun resp => .bind (cout_targets _ _ _ _) fun _ _ => .pure _
  · exact fun e => .bind (cout_targets _ _ _ _) fun _ _ => .pure _

/-- Whatever happens afterwards, `GetHttp` tries to connect to its host. -/
theorem GetHttp.connect_mem (url host port : Bytes) (ex : Exchange) :
    .connect host port ∈ (GetHttp url host port ex).events :=
  Client.connect_mem (quiet url host port).announce ex

end taraxacum
