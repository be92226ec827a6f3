import Taraxacum.Rapidjson.Reference
import Taraxacum.ServiceDiscovery.Consuld

open json exec
open taraxacum.rapidjson taraxacum.http

namespace taraxacum.Consuld

section
variable {ν : Type}

/-- A well-formed reply of Consul: the text of an array whose first element is an
    object with a service at `address`. -/
def IsReply (num : Bytes → ν) (reply address : Bytes) : Prop :=
  ∃ members service rest, Denotes num reply (.array (.object members :: rest)) ∧
    members.lookup (lit "Service") = some service ∧ IsAddress service address

/-- The exchange of one call succeeds and fetches a reply that puts `address` first. -/
def Fetches (num : Bytes → ν) (ex : Exchange) (address : Bytes) : Prop :=
  ∃ resp, ex.Succeeds resp ∧ IsReply num resp.body address

variable {num : Bytes → ν} {rj : Rapidjson ν} {mode : Assertions}

/-- One call on a well-formed reply: its address is stored last, and the address
    stored first is returned. -/
theorem Upstream_of_fetches (hparse : ParsesTexts num rj.ParseStopWhenDone) {ex : Exchange} {address : Bytes}
    (hfetches : Fetches num ex address) (self : Consuld) :
    (Upstream rj mode self ex).outcome =
      .returned (cstr (self.upstreams.headD address),
        { self with upstreams := self.upstreams ++ [cstr address] }) := by
  obtain ⟨resp, hsucceeds, members, service, rest, hdenotes, hservice, haddress⟩ := hfetches
  obtain ⟨hconnect, ⟨port, hendpoint⟩, hreply⟩ := hsucceeds
  have hfirst : FirstElement rj resp.body members := by
    refine ⟨rest, ?_⟩
    rw [cstr_of_not_mem hdenotes.nulFree]
    exact hparse _ _ hdenotes
  rw [Upstream, Exec.bind_outcome_of_returned (GetHttp.outcome_received hconnect hendpoint hreply),
    Exec.bind_outcome_of_returned (getupstream_of_service hfirst hservice haddress)]
  cases self.upstreams <;> simp

/-- Every call of a run returns the address stored first: that of the oldest reply,
    whatever the later ones hold. -/
theorem calls_of_fetches (hparse : ParsesTexts num rj.ParseStopWhenDone) {exs : List Exchange}
    {addresses : List Bytes} (hfetches : List.Forall₂ (Fetches num) exs addresses) (self : Consuld) :
    (calls rj mode self exs).outcome =
      .returned (addresses.map fun _ => cstr (self.upstreams.headD (addresses.headD [])),
        { self with upstreams := self.upstreams ++ addresses.map cstr }) := by
  induction hfetches generalizing self with
  | nil => simp [calls]
  | @cons ex address exs addresses hfetch _ ih =>
    rw [calls, Exec.bind_outcome_of_returned (Upstream_of_fetches hparse hfetch self),
      Exec.bind_outcome_of_returned (ih _)]
    cases self.upstreams <;> simp

/-- The k-th call of a run returns the address of the k-th reply, for every k,
    exactly when all replies carry one address without NUL, which is also the one
    stored first when the object has stored any. -/
theorem calls_fresh_iff (hparse : ParsesTexts num rj.ParseStopWhenDone) {exs : List Exchange}
    {addresses : List Bytes} (hfetches : List.Forall₂ (Fetches num) exs addresses) (self : Consuld) :
    (∃ self', (calls rj mode self exs).outcome = .returned (addresses, self')) ↔
      ∀ a ∈ addresses, a = cstr (self.upstreams.headD (addresses.headD [])) := by
  have hmap : (addresses.map fun _ => cstr (self.upstreams.headD (addresses.headD []))) = addresses ↔
      ∀ a ∈ addresses, a = cstr (self.upstreams.headD (addresses.headD [])) := by
    rw [← List.map_id addresses, List.map_map, List.map_inj_left]
    simp [eq_comm]
  rw [calls_of_fetches hparse hfetches self, ← hmap]
  simp

end

/-- The shortest reply of Consul with one instance at `address`. -/
def shortReply (address : Bytes) : Bytes :=
  encode id (.array [.object [(lit "Service", .object [(lit "Address", .string address)])]])

example : shortReply (lit "10.0.0.1") = lit "[\x7b\"Service\":\x7b\"Address\":\"10.0.0.1\"\x7d\x7d]" := by
  decide

/-- A response without fields, which ends with the stream. -/
def plainReply (body : Bytes) : Message := { version := 11, status := 200, reason := lit "OK", body }

def fetching (address : Bytes) : Exchange := .answering 8500 (plainReply (shortReply address))

/-- The exchange that answers with the shortest of such replies. -/
theorem fetches_fetching (address : Bytes) : Fetches id (fetching address) address := by
  refine ⟨_, Exchange.answering_succeeds _ _, _, _, [], denotes_encode ?_, rfl, _, rfl, rfl⟩
  simp [Value.All, allElements, allMembers]

/-- An agent at `consul:8500` and no address stored yet. -/
def atConsul : Consuld := new (lit "/v1/health/service/app2?passing") (lit "consul") (lit "8500")

/-- Two calls with the same address: what the first has stored is what the second should return. -/
theorem calls_fresh_of_one_address :
    (∃ self', (calls reference .enabled atConsul
        [fetching (lit "10.0.0.1"), fetching (lit "10.0.0.1")]).outcome =
      .returned ([lit "10.0.0.1", lit "10.0.0.1"], self')) :=
  (calls_fresh_iff reference_parsesFirst
    (.cons (fetches_fetching _) (.cons (fetches_fetching _) .nil)) atConsul).mpr (by decide)

/-- The instance moves from `10.0.0.1` to `10.0.0.2`: the second call still returns
    the address it had. -/
theorem calls_stale :
    ¬ ∀ (self : Consuld) (exs : List Exchange) (addresses : List Bytes),
      List.Forall₂ (Fetches id) exs addresses →
        ∃ self', (calls reference .enabled self exs).outcome = .returned (addresses, self') := by
  intro h
  have hfetches : List.Forall₂ (Fetches id) [fetching (lit "10.0.0.1"), fetching (lit "10.0.0.2")]
      [lit "10.0.0.1", lit "10.0.0.2"] :=
    .cons (fetches_fetching _) (.cons (fetches_fetching _) .nil)
  obtain ⟨self', hcalls⟩ := h atConsul _ _ hfetches
  rw [calls_of_fetches reference_parsesFirst hfetches] at hcalls
  obtain ⟨hreturned, _⟩ := Prod.mk.inj (Outcome.returned.inj hcalls)
  exact absurd hreturned (by decide)

end taraxacum.Consuld
