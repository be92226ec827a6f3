import Taraxacum.App1.Run

open json exec
open taraxacum.rapidjson taraxacum.http

namespace taraxacum

section
variable {ν : Type} {rj : Rapidjson ν} {mode : Assertions}

/-- `getupstream` only prints. -/
theorem Consuld.getupstream_emits {P : Event → Prop} (hcout : ∀ text, P (.cout text)) (self : Consuld)
    (json : Bytes) : (getupstream rj mode self json).Emits P := by
  have hreport : ∀ parsed, (reportParse rj parsed).Emits P := by
    intro parsed
    cases parsed with
    | ok v => exact .pure ()
    | error e =>
      refine .bind (.emit (hcout _)) fun _ _ => ?_
      refine .bind (.emit (hcout _)) fun _ _ => ?_
      refine .bind (.emit (hcout _)) fun _ _ => ?_
      exact .emit (hcout _)
  refine .bind (hreport _) fun _ _ => ?_
  refine .bind (.of_events_eq_nil (assert_events _)) fun _ _ => ?_
  refine .bind (.of_events_eq_nil (element_events _ _)) fun first _ => ?_
  refine .bind (.of_events_eq_nil (HasMember_events _ _)) fun hasService _ => ?_
  cases hasService with
  | false => exact .pure self
  | true =>
    refine .bind (.emit (hcout _)) fun _ _ => ?_
    refine .bind (.of_events_eq_nil (element_events _ _)) fun first _ => ?_
    refine .bind (.of_events_eq_nil (member_events _ _)) fun service _ => ?_
    refine .bind (.of_events_eq_nil (member_events _ _)) fun address _ => ?_
    exact .bind (.of_events_eq_nil (GetString_events _)) fun _ _ => .pure _

/-- Whatever the reply, `getupstream` only ever appends to the list. -/
theorem Consuld.getupstream_appends {self self' : Consuld} {reply : Bytes}
    (h : (getupstream rj mode self reply).outcome = .returned self') :
    ∃ addresses, self' = { self with upstreams := self.upstreams ++ addresses } := by
  rw [getupstream, Exec.bind_outcome_of_returned (reportParse_outcome _)] at h
  obtain ⟨_, _, h⟩ := Exec.bind_eq_returned_iff.mp h
  obtain ⟨_, _, h⟩ := Exec.bind_eq_returned_iff.mp h
  obtain ⟨hasService, _, h⟩ := Exec.bind_eq_returned_iff.mp h
  cases hasService with
  | false =>
    refine ⟨[], ?_⟩
    rw [List.append_nil]
    exact (Outcome.returned.inj h).symm
  | true =>
    rw [if_pos rfl, Exec.bind_outcome_of_returned (cout_outcome _)] at h
    obtain ⟨_, _, h⟩ := Exec.bind_eq_returned_iff.mp h
    obtain ⟨_, _, h⟩ := Exec.bind_eq_returned_iff.mp h
    obtain ⟨_, _, h⟩ := Exec.bind_eq_returned_iff.mp h
    obtain ⟨address, _, h⟩ := Exec.bind_eq_returned_iff.mp h
    exact ⟨[cstr address], (Outcome.returned.inj h).symm⟩

/-- `Consuld::Upstream` itself. -/
def Consuld.discovery (rj : Rapidjson ν) (mode : Assertions) : Discovery where
  Upstream := Upstream rj mode
  keeps := by
    intro self self' ex v h
    obtain ⟨reply, _, hafter, _⟩ := Upstream_returned_iff.mp h
    obtain ⟨addresses, rfl⟩ := getupstream_appends hafter
    exact ⟨rfl, rfl, rfl⟩
  targets := by
    intro self ex
    refine .bind (GetHttp.targets _ _ _ _) fun reply _ => ?_
    refine .bind (getupstream_emits (fun _ => trivial) _ _) fun after _ => ?_
    cases after.upstreams with
    | nil => exact .of_events_eq_nil rfl
    | cons front rest => exact .pure _
  asks := fun self ex => Exec.mem_bind_events _ (GetHttp.connect_mem ..)

end

namespace App1

section
variable {ν : Type} {rj : Rapidjson ν} {mode : Assertions} {discovery : Discovery} {consul : Consuld}
  {self : App1}

/-- Start-up leaves the object asking the server it was loaded with. -/
theorem drifted_startup {env : Environment} {ex : Exchange}
    (hload : (Consuld.Loadconfig rj mode env).outcome = .returned consul)
    (hstart : (startup rj mode discovery env ex).outcome = .returned self) :
    Drifted consul self.upstream none self := by
  rw [startup, Exec.bind_outcome_of_returned hload] at hstart
  obtain ⟨⟨v, after⟩, hupstream, hstart⟩ := Exec.bind_eq_returned_iff.mp hstart
  obtain ⟨hhost, hport, hurl⟩ := discovery.keeps hupstream
  obtain rfl := Outcome.returned.inj hstart
  exact ⟨hhost, hport, hurl, rfl⟩

/-- After start-up every query goes where the configuration says and every request
    goes to the address found last, in a whole run, exactly when the addresses found
    stand still: another reload follows only one that found the configured host, and
    a request only one that found the address of start-up. -/
theorem run_apart_iff (discovery : Discovery) {env : Environment} {ex : Exchange}
    (hload : (Consuld.Loadconfig rj mode env).outcome = .returned consul)
    (hstart : (startup rj mode discovery env ex).outcome = .returned self) (steps : List Step) :
    Apart consul none (run discovery self steps) ↔
      Still consul.host self.upstream none (run discovery self steps) :=
  apart_iff_still (drifted_startup hload hstart) steps

end

def Record.isReload : Record → Bool
  | .reload _ _ => true
  | .request _ => false

section
variable {ν : Type} {rj : Rapidjson ν} {mode : Assertions} {self : App1}

/-- The object stores the address of start-up first. -/
def Front (app : App1) : Prop := app.consul.upstreams.head?.map cstr = some app.upstream

/-- After the start the list begins with the address that `upstream` holds. -/
theorem front_startup {env : Environment} {ex : Exchange}
    (hstart : (startup rj mode (Consuld.discovery rj mode) env ex).outcome = .returned self) : self.Front := by
  obtain ⟨consul, _, hstart⟩ := Exec.bind_eq_returned_iff.mp hstart
  obtain ⟨⟨v, after⟩, hupstream, hstart⟩ := Exec.bind_eq_returned_iff.mp hstart
  obtain ⟨_, _, _, hfront⟩ := Consuld.Upstream_returned_iff.mp hupstream
  obtain rfl := Outcome.returned.inj hstart
  exact hfront

/-- Every reload finds the address of start-up again, and keeps it in front. -/
theorem Front.reload (hself : self.Front) {ex : Exchange} {v : Bytes} {self' : App1}
    (hcall : (signalHandler (Consuld.discovery rj mode) SIGHUP self ex).outcome = .returned (v, self')) :
    v = self.upstream ∧ self'.upstream = self.upstream ∧ self'.Front := by
  obtain ⟨consul, hupstream, rfl⟩ := signalHandler_returned_iff.mp hcall
  obtain ⟨reply, _, hafter, hfront⟩ := Consuld.Upstream_returned_iff.mp hupstream
  obtain ⟨addresses, rfl⟩ := Consuld.getupstream_appends hafter
  have hsame : v = self.upstream := by
    rw [Front] at hself
    cases hupstreams : self.consul.upstreams with
    | nil => simp [hupstreams] at hself
    | cons front rest =>
      simp only [hupstreams, List.head?_cons, Option.map_some, Option.some.injEq,
        List.cons_append] at hself hfront
      exact hfront.symm.trans hself
  subst hsame
  exact ⟨rfl, rfl, hfront⟩

/-- Once a reload has come back no other may follow, unless the address of start-up
    is the configured host. -/
theorem still_after_reload_iff (hself : self.Front) (host : Bytes) (steps : List Step) :
    Still host self.upstream (some self.upstream) (run (Consuld.discovery rj mode) self steps) ↔
      self.upstream = host ∨ (run (Consuld.discovery rj mode) self steps).countP Record.isReload = 0 := by
  induction steps generalizing self with
  | nil => simp [run, Still]
  | cons step steps ih =>
    cases step with
    | request ex => simp [run, Still, ih hself, Record.isReload]
    | reload ex =>
      simp only [run]
      split
      · rename_i v self' hcall
        obtain ⟨rfl, hupstream, hfront⟩ := hself.reload hcall
        have htail := ih hfront
        rw [hupstream] at htail
        simp only [Still, Option.mem_some_iff, forall_eq', htail, List.countP_cons, Record.isReload, if_true]
        constructor
        · exact fun h => .inl h.1
        · rintro (h | h)
          · exact ⟨h, .inl h⟩
          · omega
      · simp [Still, Record.isReload]

/-- Every reload brings the front address again, so that the addresses stand still where that is the
    host of the configuration, or where no reload follows another. -/
theorem still_iff (hself : self.Front) (host : Bytes) (steps : List Step) :
    Still host self.upstream none (run (Consuld.discovery rj mode) self steps) ↔
      self.upstream = host ∨ (run (Consuld.discovery rj mode) self steps).countP Record.isReload ≤ 1 := by
  induction steps generalizing self with
  | nil => simp [run, Still]
  | cons step steps ih =>
    cases step with
    | request ex => simp [run, Still, ih hself, Record.isReload]
    | reload ex =>
      simp only [run]
      split
      · rename_i v self' hcall
        obtain ⟨rfl, hupstream, hfront⟩ := hself.reload hcall
        have htail := @still_after_reload_iff _ rj mode _ hfront host steps
        rw [hupstream] at htail
        rw [List.countP_cons_of_pos rfl]
        constructor
        · rintro ⟨_, h⟩
          exact (htail.mp h).imp_right fun hnone => by omega
        · intro h
          exact ⟨by simp, htail.mpr (h.imp_right fun hle => by omega)⟩
      · simp [Still, Record.isReload]

/-- The same for `Consuld::Upstream` itself, which finds the address of start-up again and
    again: requests are always right, and queries while there is at most one reload, or
    for ever when that address is the configured host. -/
theorem consul_run_apart_iff {consul : Consuld} {env : Environment} {ex : Exchange}
    (hload : (Consuld.Loadconfig rj mode env).outcome = .returned consul)
    (hstart : (startup rj mode (Consuld.discovery rj mode) env ex).outcome = .returned self)
    (steps : List Step) :
    Apart consul none (run (Consuld.discovery rj mode) self steps) ↔
      self.upstream = consul.host ∨
        (run (Consuld.discovery rj mode) self steps).countP Record.isReload ≤ 1 := by
  rw [apart_iff_still (drifted_startup hload hstart)]
  exact still_iff (front_startup hstart) consul.host steps

end

/-- A configuration for the agent at `host`, port 8500. -/
def configuration (host : Bytes) : Bytes :=
  encode id (.object [(lit "Consuld", .array [.string host, .string (lit "8500"),
    .string (lit "/v1/health/service/app2?passing")])])

def environment (host : Bytes) : Environment := { CONFIG := none, files := fun _ => .ok (configuration host) }

def loaded (host : Bytes) : Consuld := .new (lit "/v1/health/service/app2?passing") (cstr host) (lit "8500")

/-- The configuration of the examples is read as it is meant. -/
theorem loadconfig_environment (host : Bytes) :
    (Consuld.Loadconfig reference .enabled (environment host)).outcome = .returned (loaded host) := by
  have hparse : reference.ParseStream (configuration host) = .ok (.object [(lit "Consuld",
      .array [.string host, .string (lit "8500"), .string (lit "/v1/health/service/app2?passing")])]) :=
    reference_parsesTexts _ _ (denotes_encode (by simp [Value.All, allElements, allMembers]))
  have hfields : (Consuld.settings.Loadconfig reference .enabled (environment host)).outcome =
      .returned (cstr host, cstr (lit "8500"), cstr (lit "/v1/health/service/app2?passing")) :=
    Section.Loadconfig_of_strings rfl hparse rfl rfl rfl rfl
  rw [Consuld.Loadconfig, Exec.bind_outcome_of_returned hfields]
  rfl

/-- The globals after start-up with a reply that puts `address` first. -/
def started (host address : Bytes) : App1 where
  consul := { loaded host with upstreams := [cstr address] }
  upstream := cstr address

/-- The start with this configuration and one reply. -/
theorem startup_environment (host address : Bytes) :
    (startup reference .enabled (Consuld.discovery reference .enabled) (environment host)
      (Consuld.fetching address)).outcome = .returned (started host address) := by
  rw [startup, Exec.bind_outcome_of_returned (loadconfig_environment host)]
  have hcall := @Consuld.Upstream_of_fetches _ _ _ .enabled reference_parsesFirst _ _
    (Consuld.fetches_fetching address) (loaded host)
  rw [show (Consuld.discovery reference .enabled).Upstream = Consuld.Upstream reference .enabled from rfl,
    Exec.bind_outcome_of_returned hcall]
  rfl

/-- A signal after that start, with another reply, returns an address. -/
theorem signalHandler_started (host address : Bytes) :
    ∃ self', (signalHandler (Consuld.discovery reference .enabled) SIGHUP (started host address)
      (Consuld.fetching address)).outcome = .returned (cstr address, self') := by
  have hcall := @Consuld.Upstream_of_fetches _ _ _ .enabled reference_parsesFirst _ _
    (Consuld.fetches_fetching address) (started host address).consul
  rw [show (started host address).consul.upstreams.headD address = cstr address from rfl, cstr_cstr] at hcall
  exact ⟨_, signalHandler_returned_iff.mpr ⟨_, hcall, rfl⟩⟩

/-- One reload and one request, with a configuration for `consul` and an instance at `10.0.0.1`. -/
theorem apart_of_one_reload :
    Apart (loaded (lit "consul")) none
      (run (Consuld.discovery reference .enabled) (started (lit "consul") (lit "10.0.0.1"))
        [.reload (Consuld.fetching (lit "10.0.0.1")), .request (Consuld.fetching (lit "10.0.0.1"))]) := by
  apply (run_apart_iff _ (loadconfig_environment _) (startup_environment _ _) _).mpr
  obtain ⟨self', hcall⟩ := signalHandler_started (lit "consul") (lit "10.0.0.1")
  simp only [run, hcall]
  simp [Still, started]

/-- The second reload asks `10.0.0.1` what it should ask `consul`. -/
theorem apart_fails_second_reload :
    ¬ ∀ (env : Environment) (ex : Exchange) (consul : Consuld) (self : App1) (steps : List Step),
      (Consuld.Loadconfig reference .enabled env).outcome = .returned consul →
      (startup reference .enabled (Consuld.discovery reference .enabled) env ex).outcome = .returned self →
      Apart consul none (run (Consuld.discovery reference .enabled) self steps) := by
  intro h
  let ex := Consuld.fetching (lit "10.0.0.1")
  have hload := loadconfig_environment (lit "consul")
  have hstart := startup_environment (lit "consul") (lit "10.0.0.1")
  have hapart := h _ _ _ _ [.reload ex, .reload ex] hload hstart
  obtain ⟨self', hcall⟩ := signalHandler_started (lit "consul") (lit "10.0.0.1")
  rcases (consul_run_apart_iff hload hstart _).mp hapart with hhost | hcount
  · exact absurd hhost (by decide)
  · simp only [run, ex, hcall] at hcount
    split at hcount <;> exact absurd hcount (Nat.not_succ_le_self 1)

end App1

end taraxacum
