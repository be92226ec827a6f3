import Taraxacum.Http.Targets
import Taraxacum.ServiceDiscovery.FailedRound

open json exec
open taraxacum.rapidjson taraxacum.http

namespace taraxacum

/-- The globals of app1. -/
structure App1 where
  consul : Consuld
  upstream : Bytes
  deriving DecidableEq

/-- A way for `Consuld::Upstream` to come by its address: it asks the object's own
    server for the object's own url and leaves those as they are, but which address it
    returns is open. -/
structure Discovery where
  Upstream : Consuld → Exchange → Call (Bytes × Consuld)
  keeps : ∀ {self self' : Consuld} {ex : Exchange} {v : Bytes},
    (Upstream self ex).outcome = .returned (v, self') →
    self'.host = self.host ∧ self'.port = self.port ∧ self'.url = self.url
  targets : ∀ (self : Consuld) (ex : Exchange),
    (Upstream self ex).Emits (Event.Targets self.host self.port self.url)
  asks : ∀ (self : Consuld) (ex : Exchange), .connect self.host self.port ∈ (Upstream self ex).events

namespace App1

section
variable {ν : Type} (rj : Rapidjson ν) (mode : Assertions) (discovery : Discovery)

/-- The initialisation of the globals. -/
def startup (env : Environment) (ex : Exchange) : Call App1 := do
  let consul ← Consuld.Loadconfig rj mode env
  let (upstream, consul) ← discovery.Upstream consul ex
  return { consul, upstream }

def biz (self : App1) (ex : Exchange) : Call Unit := do
  cout (lit "Connecting to " ++ self.upstream ++ lit "\n")
  let app2_response ← GetHttp (lit "/app2") self.upstream (lit "8040") ex
  Exec.emit (.send (lit "\x7b \"status\": \"ok\", \"response\": \"hello" ++ app2_response ++
    lit "\", \"microservice_name\": \"app1\"\x7d\n"))

/-- The handler, with the address it found. -/
def signalHandler (signum : Nat) (self : App1) (ex : Exchange) : Call (Bytes × App1) := do
  cout (lit "Interrupt signal (" ++ decimal signum ++ lit ") received. Reloading upstreams\n")
  let (v, consul) ← discovery.Upstream self.consul ex
  let consul := consul.sethost v
  cout (lit "Reloading Consul data: New upstream " ++ v ++ lit "\n")
  return (v, { self with consul })

end

def SIGHUP : Nat := 1

/-- A signal or a request, and how the exchange it leads to goes. -/
inductive Step where
  | reload (ex : Exchange)
  | request (ex : Exchange)

/-- What a step did; a reload also says which address it found, if it came back. -/
inductive Record where
  | reload (events : List Event) (v : Option Bytes)
  | request (events : List Event)

/-- The steps one after the other. A reload that does not come back ends the
    process, a request only itself. -/
def run (discovery : Discovery) (self : App1) : List Step → List Record
  | [] => []
  | .request ex :: steps => .request (biz self ex).events :: run discovery self steps
  | .reload ex :: steps =>
    let call := signalHandler discovery SIGHUP self ex
    match call.outcome with
    | .returned (v, self) => .reload call.events (some v) :: run discovery self steps
    | _ => [.reload call.events none]

/-- The two addresses are kept apart and current: every reload asks the server of
    `consul`, the object as it was loaded, and every request after a reload goes to the
    address the latest one found. -/
def Apart (consul : Consuld) : Option Bytes → List Record → Prop
  | _, [] => True
  | _, .reload events v :: records =>
    (∀ e ∈ events, e.Targets consul.host consul.port consul.url) ∧ Apart consul v records
  | latest, .request events :: records =>
    (∀ v ∈ latest, .connect v (lit "8040") ∈ events ∧ ∀ e ∈ events, e.Targets v (lit "8040") (lit "/app2")) ∧
      Apart consul latest records

/-- The addresses found stand still: one that another reload follows is the
    host the object was loaded with, one that a request follows is the one of start-up. -/
def Still (host upstream : Bytes) : Option Bytes → List Record → Prop
  | _, [] => True
  | latest, .reload _ v :: records => (∀ a ∈ latest, a = host) ∧ Still host upstream v records
  | latest, .request _ :: records => (∀ a ∈ latest, a = upstream) ∧ Still host upstream latest records

/-- What start-up and the steps after it leave of the globals: `sethost` has put the
    latest address in the place of the host, and nothing has put it into `upstream`. -/
structure Drifted (consul : Consuld) (upstream : Bytes) (latest : Option Bytes) (app : App1) : Prop where
  host : app.consul.host = latest.getD consul.host
  port : app.consul.port = consul.port
  url : app.consul.url = consul.url
  upstream : app.upstream = upstream

section
variable {discovery : Discovery} {consul : Consuld} {upstream : Bytes} {latest : Option Bytes} {self : App1}

/-- Every request to `app1` connects to the address that `upstream` holds. -/
theorem biz_connects (self : App1) (ex : Exchange) :
    .connect self.upstream (lit "8040") ∈ (biz self ex).events := by
  rw [biz, Exec.bind_events_of_returned (cout_outcome _)]
  apply List.mem_append_right
  apply Exec.mem_bind_events
  exact GetHttp.connect_mem ..

/-- A request to `app1` goes to no other host. -/
theorem biz_targets (self : App1) (ex : Exchange) :
    (biz self ex).Emits (Event.Targets self.upstream (lit "8040") (lit "/app2")) := by
  refine .bind (cout_targets _ _ _ _) fun _ _ => ?_
  refine .bind (GetHttp.targets _ _ _ _) fun app2_response _ => ?_
  exact .emit trivial

/-- Every signal asks the Consul of the configuration. -/
theorem signalHandler_asks (self : App1) (ex : Exchange) :
    .connect self.consul.host self.consul.port ∈ (signalHandler discovery SIGHUP self ex).events := by
  rw [signalHandler, Exec.bind_events_of_returned (cout_outcome _)]
  apply List.mem_append_right
  apply Exec.mem_bind_events
  exact discovery.asks ..

/-- A signal asks no other host than that Consul. -/
theorem signalHandler_targets (self : App1) (ex : Exchange) :
    (signalHandler discovery SIGHUP self ex).Emits
      (Event.Targets self.consul.host self.consul.port self.consul.url) := by
  refine .bind (cout_targets _ _ _ _) fun _ _ => ?_
  refine .bind (discovery.targets _ _) fun found _ => ?_
  refine .bind (cout_targets _ _ _ _) fun _ _ => ?_
  exact .pure _

/-- A reload that comes back has put the address it found in the place of the host. -/
theorem signalHandler_returned_iff {signum : Nat} {ex : Exchange} {v : Bytes} {self' : App1} :
    (signalHandler discovery signum self ex).outcome = .returned (v, self') ↔
      ∃ consul', (discovery.Upstream self.consul ex).outcome = .returned (v, consul') ∧
        self' = { self with consul := consul'.sethost v } := by
  rw [signalHandler, Exec.bind_outcome_of_returned (cout_outcome _),
    Exec.bind_eq_returned_iff]
  constructor
  · rintro ⟨⟨v', consul'⟩, hupstream, h⟩
    rw [Exec.bind_outcome_of_returned (cout_outcome _)] at h
    obtain ⟨rfl, rfl⟩ := Prod.mk.inj (Outcome.returned.inj h)
    exact ⟨consul', hupstream, rfl⟩
  · rintro ⟨consul', hupstream, rfl⟩
    exact ⟨(v, consul'), hupstream, rfl⟩

/-- A signal that brings an address leaves `upstream` as it is, and the object further from it. -/
theorem Drifted.reload {ex : Exchange} {v : Bytes} {self' : App1} (hself : Drifted consul upstream latest self)
    (hcall : (signalHandler discovery SIGHUP self ex).outcome = .returned (v, self')) :
    Drifted consul upstream (some v) self' := by
  obtain ⟨consul', hupstream, rfl⟩ := signalHandler_returned_iff.mp hcall
  obtain ⟨_, hport, hurl⟩ := discovery.keeps hupstream
  exact ⟨rfl, hport.trans hself.port, hurl.trans hself.url, hself.upstream⟩

/-- A reload asks the right server exactly when the reload before it, if there was
    one, found the address of that server. -/
theorem reload_targets_iff (hself : Drifted consul upstream latest self) (ex : Exchange) :
    (∀ e ∈ (signalHandler discovery SIGHUP self ex).events, e.Targets consul.host consul.port consul.url) ↔
      ∀ a ∈ latest, a = consul.host := by
  have hhost : (∀ a ∈ latest, a = consul.host) ↔ self.consul.host = consul.host := by
    rw [hself.host]
    cases latest <;> simp
  rw [hhost]
  constructor
  · intro h
    exact (h _ (signalHandler_asks self ex)).1
  · intro h
    have htargets := @signalHandler_targets discovery self ex
    rwa [h, hself.port, hself.url] at htargets

/-- A request goes to the address last returned exactly where that is the one of the start. -/
theorem request_targets_iff (hself : Drifted consul upstream latest self) (ex : Exchange) :
    (∀ v ∈ latest, .connect v (lit "8040") ∈ (biz self ex).events ∧
      ∀ e ∈ (biz self ex).events, e.Targets v (lit "8040") (lit "/app2")) ↔ ∀ a ∈ latest, a = upstream := by
  refine forall_congr' fun v => forall_congr' fun _ => ?_
  rw [← hself.upstream]
  constructor
  · rintro ⟨_, h⟩
    exact ((h _ (biz_connects self ex)).1).symm
  · rintro rfl
    exact ⟨biz_connects self ex, biz_targets self ex⟩

/-- The property of a whole run, from what is known of each of its records. -/
theorem apart_iff_still (hself : Drifted consul upstream latest self) (steps : List Step) :
    Apart consul latest (run discovery self steps) ↔
      Still consul.host upstream latest (run discovery self steps) := by
  induction steps generalizing self latest with
  | nil => exact Iff.rfl
  | cons step steps ih =>
    cases step with
    | request ex => exact and_congr (request_targets_iff hself ex) (ih hself)
    | reload ex =>
      simp only [run]
      split
      · rename_i v self' hcall
        exact and_congr (reload_targets_iff hself ex) (ih (hself.reload hcall))
      · exact and_congr (reload_targets_iff hself ex) Iff.rfl

end

end App1

end taraxacum
