import Taraxacum.Rapidjson.Reference
import Taraxacum.ServiceDiscovery.Freshness

open json exec
open taraxacum.rapidjson taraxacum.http

namespace taraxacum.Consuld

section
variable {ν : Type} {rj : Rapidjson ν} {mode : Assertions}

/-- The states an object can be in: after either constructor, and after any calls of
    its methods that came back. A call that throws leaves the object as it was. -/
inductive Reachable (rj : Rapidjson ν) (mode : Assertions) : Consuld → Prop where
  | loaded {env : Environment} {self : Consuld} (hload : (Loadconfig rj mode env).outcome = .returned self) :
      Reachable rj mode self
  | new (url host port : Bytes) : Reachable rj mode (new url host port)
  | sethost {self : Consuld} (hself : Reachable rj mode self) (host : Bytes) :
      Reachable rj mode (self.sethost host)
  | upstream {self self' : Consuld} {ex : Exchange} {v : Bytes} (hself : Reachable rj mode self)
      (hcall : (Upstream rj mode self ex).outcome = .returned (v, self')) : Reachable rj mode self'

/-- Every stored address came through a C string. -/
def Stored (self : Consuld) : Prop := ∀ a ∈ self.upstreams, 0 ∉ a

/-- Without a service entry in the first element that has an address, a round brings nothing new. -/
def Fails (rj : Rapidjson ν) (reply : Bytes) : Prop :=
  ∀ members service address, FirstElement rj reply members → members.lookup (lit "Service") = some service →
    ¬ IsAddress service address

/-- The reply is an array whose first element is an object without a service. -/
def LacksService (rj : Rapidjson ν) (reply : Bytes) : Prop :=
  ∃ members, FirstElement rj reply members ∧ members.lookup (lit "Service") = none

/-- The call comes back, keeps the list as it was and returns an address in it. -/
def KeepsList (rj : Rapidjson ν) (mode : Assertions) (self : Consuld) (ex : Exchange) : Prop :=
  ∃ v self', (Upstream rj mode self ex).outcome = .returned (v, self') ∧
    self'.upstreams = self.upstreams ∧ v ∈ self.upstreams

/-- The first element of a reply, from the document that the parser leaves. -/
theorem firstElement_of_document {reply : Bytes} {elements : List (Value ν)}
    {members : List (Bytes × Value ν)}
    (harray : document (rj.ParseStopWhenDone (cstr reply)) = .array elements)
    (hfirst : elements[0]? = some (.object members)) : FirstElement rj reply members := by
  obtain ⟨first, rest, rfl⟩ : ∃ first rest, elements = first :: rest := by
    cases elements with
    | nil => cases hfirst
    | cons first rest => exact ⟨first, rest, rfl⟩
  obtain rfl : first = .object members := by simpa using hfirst
  exact ⟨rest, eq_ok_of_document nofun harray⟩

/-- With assertions in, `getupstream` comes back exactly on an array whose first
    element is an object, and whose service, if there is one, has an address. -/
theorem getupstream_returned_iff {self self' : Consuld} {reply : Bytes} :
    (getupstream rj .enabled self reply).outcome = .returned self' ↔
      ∃ members, FirstElement rj reply members ∧
        ((members.lookup (lit "Service") = none ∧ self' = self) ∨
          ∃ service address, members.lookup (lit "Service") = some service ∧ IsAddress service address ∧
            self' = { self with upstreams := self.upstreams ++ [cstr address] }) := by
  constructor
  · intro h
    rw [getupstream, Exec.bind_outcome_of_returned (reportParse_outcome _)] at h
    simp only [Exec.bind_eq_returned_iff, element_returned_iff, HasMember_returned_iff] at h
    obtain ⟨_, _, first, ⟨elements, harray, hget⟩, hasService, ⟨members, rfl, hmember⟩, h⟩ := h
    have hfirst := firstElement_of_document harray hget
    refine ⟨members, hfirst, ?_⟩
    cases hservice : members.lookup (lit "Service") with
    | none =>
      left
      simp only [hservice, Option.isSome_none] at hmember
      subst hmember
      exact ⟨rfl, (Outcome.returned.inj h).symm⟩
    | some service =>
      right
      simp only [hservice, Option.isSome_some] at hmember
      subst hmember
      simp only [if_true, Exec.bind_eq_returned_iff, element_returned_iff, member_returned_iff,
        GetString_returned_iff] at h
      obtain ⟨_, _, _, ⟨elements', harray', hget'⟩, _, ⟨members', rfl, hservice'⟩, value, ⟨fields, rfl, hvalue⟩,
        address, rfl, h⟩ := h
      obtain rfl : elements = elements' := Value.array.inj (harray.symm.trans harray')
      obtain rfl : members = members' := Value.object.inj (Option.some.inj (hget.symm.trans hget'))
      rw [hservice] at hservice'
      obtain rfl := Option.some.inj hservice'
      exact ⟨_, address, rfl, ⟨fields, rfl, hvalue⟩, (Outcome.returned.inj h).symm⟩
  · rintro ⟨members, hfirst, ⟨hservice, rfl⟩ | ⟨service, address, hservice, haddress, rfl⟩⟩
    · exact getupstream_of_no_service hfirst hservice
    · exact getupstream_of_service hfirst hservice haddress

/-- Only C strings are ever appended to the list. -/
theorem stored_getupstream {self self' : Consuld} {reply : Bytes} (hself : self.Stored)
    (h : (getupstream rj .enabled self reply).outcome = .returned self') : self'.Stored := by
  obtain ⟨members, _, ⟨_, rfl⟩ | ⟨service, address, _, _, rfl⟩⟩ := getupstream_returned_iff.mp h
  · exact hself
  · intro a ha
    rcases List.mem_append.mp ha with ha | ha
    · exact hself a ha
    · rw [List.mem_singleton.mp ha]
      exact not_mem_cstr address

/-- When a call returns, and with what: a body was fetched, `getupstream` got through it, and the
    list has a first address. -/
theorem Upstream_returned_iff {self self' : Consuld} {ex : Exchange} {v : Bytes} :
    (Upstream rj mode self ex).outcome = .returned (v, self') ↔
      ∃ reply, (GetHttp self.url self.host self.port ex).outcome = .returned reply ∧
        (getupstream rj mode self reply).outcome = .returned self' ∧
          self'.upstreams.head?.map cstr = some v := by
  simp only [Upstream, Exec.bind_eq_returned_iff]
  refine exists_congr fun reply => and_congr_right fun _ => ?_
  constructor
  · rintro ⟨after, hafter, h⟩
    cases hupstreams : after.upstreams with
    | nil => simp [hupstreams] at h
    | cons front rest =>
      simp only [hupstreams, Exec.pure_outcome, Outcome.returned.injEq, Prod.mk.injEq] at h
      obtain ⟨rfl, rfl⟩ := h
      simp [hafter, hupstreams]
  · rintro ⟨hafter, hfront⟩
    refine ⟨self', hafter, ?_⟩
    cases hupstreams : self'.upstreams with
    | nil => simp [hupstreams] at hfront
    | cons front rest =>
      obtain rfl : cstr front = v := by simpa [hupstreams] using hfront
      rfl

/-- Every reachable list holds C strings only. -/
theorem Reachable.stored {self : Consuld} (h : Reachable rj .enabled self) : self.Stored := by
  induction h with
  | loaded hload =>
    simp only [Loadconfig, Exec.bind_eq_returned_iff] at hload
    obtain ⟨_, _, hself⟩ := hload
    cases hself
    simp [Stored]
  | new => simp [Stored, Consuld.new]
  | sethost _ host ih => exact ih
  | upstream _ hcall ih =>
    obtain ⟨reply, _, hafter, _⟩ := Upstream_returned_iff.mp hcall
    exact stored_getupstream ih hafter

/-- A round either ends well or in a failed assertion. -/
theorem getupstream_returnsOrAborts (self : Consuld) (reply : Bytes) :
    (getupstream rj .enabled self reply).ReturnsOrAborts := by
  rw [getupstream]
  refine .bind (.of_returned (reportParse_outcome _)) fun _ => ?_
  refine .bind (assert_returnsOrAborts _) fun _ => ?_
  refine .bind (element_returnsOrAborts _ _) fun first => ?_
  refine .bind (HasMember_returnsOrAborts _ _) fun hasService => ?_
  cases hasService with
  | false => exact .of_returned rfl
  | true =>
    refine .bind (.of_returned rfl) fun _ => ?_
    refine .bind (element_returnsOrAborts _ _) fun first => ?_
    refine .bind (member_returnsOrAborts _ _) fun service => ?_
    refine .bind (member_returnsOrAborts _ _) fun address => ?_
    exact .bind (GetString_returnsOrAborts _) fun _ => .of_returned rfl

/-- When no address comes with a reply, `getupstream` gets through only by finding no service. -/
theorem lacksService_of_returned {self self' : Consuld} {reply : Bytes} (hfails : Fails rj reply)
    (h : (getupstream rj .enabled self reply).outcome = .returned self') :
    LacksService rj reply := by
  obtain ⟨members, hfirst, ⟨hnone, _⟩ | ⟨service, address, hservice, haddress, _⟩⟩ :=
    getupstream_returned_iff.mp h
  · exact ⟨members, hfirst, hnone⟩
  · exact absurd haddress (hfails members service address hfirst hservice)

/-- An address that comes with a reply makes the list longer, so a list that is kept
    says that the reply lacks a service. -/
theorem lacksService_of_kept {self self' : Consuld} {reply : Bytes}
    (h : (getupstream rj .enabled self reply).outcome = .returned self')
    (hkept : self'.upstreams = self.upstreams) : LacksService rj reply := by
  obtain ⟨members, hfirst, ⟨hnone, _⟩ | ⟨service, address, _, _, rfl⟩⟩ := getupstream_returned_iff.mp h
  · exact ⟨members, hfirst, hnone⟩
  · simp at hkept

/-- A reply whose first element has no service leaves the list alone. -/
theorem keepsList_of_lacksService {self : Consuld} (hreachable : Reachable rj .enabled self)
    (hsome : self.upstreams ≠ []) {ex : Exchange} {reply : Bytes}
    (hreply : (GetHttp self.url self.host self.port ex).outcome = .returned reply)
    (hlacks : LacksService rj reply) : KeepsList rj .enabled self ex := by
  obtain ⟨members, hfirst, hnone⟩ := hlacks
  obtain ⟨front, rest, hupstreams⟩ := List.exists_cons_of_ne_nil hsome
  have hmem : front ∈ self.upstreams := by simp [hupstreams]
  have hfront : cstr front = front := cstr_of_not_mem (hreachable.stored front hmem)
  refine ⟨front, self, ?_, rfl, hmem⟩
  rw [Upstream_returned_iff]
  exact ⟨reply, hreply, getupstream_of_no_service hfirst hnone, by simp [hupstreams, hfront]⟩

/-- A round keeps the list exactly when the reply's first element lacks a service. On
    every other reply that brings no address an assertion stops the process. -/
theorem keepsList_iff {self : Consuld} (hreachable : Reachable rj .enabled self) (hsome : self.upstreams ≠ [])
    {ex : Exchange} {reply : Bytes}
    (hreply : (GetHttp self.url self.host self.port ex).outcome = .returned reply) :
    (KeepsList rj .enabled self ex ↔ LacksService rj reply) ∧
      (Fails rj reply → ¬ KeepsList rj .enabled self ex →
        (Upstream rj .enabled self ex).outcome = .aborted) := by
  have hkept := keepsList_of_lacksService hreachable hsome hreply
  refine ⟨⟨?_, hkept⟩, fun hfails hlost => ?_⟩
  · rintro ⟨v, self', hcall, hsame, _⟩
    obtain ⟨reply', hreply', hafter, _⟩ := Upstream_returned_iff.mp hcall
    rw [hreply] at hreply'
    cases hreply'
    exact lacksService_of_kept hafter hsame
  · rw [Upstream, Exec.bind_outcome_of_returned hreply]
    rcases getupstream_returnsOrAborts self reply with haborted | ⟨self', hafter⟩
    · exact Exec.bind_outcome_of_aborted haborted _
    · exact absurd (hkept (lacksService_of_returned hfails hafter)) hlost

end

/-- The agent after one round that stored `10.0.0.1`. -/
def oneStored : Consuld := { atConsul with upstreams := [lit "10.0.0.1"] }

/-- A list of one address is what one good round leaves. -/
theorem oneStored_reachable : Reachable reference .enabled oneStored :=
  .upstream (.new _ _ _) (Upstream_of_fetches reference_parsesFirst
    (fetches_fetching (lit "10.0.0.1")) atConsul)

/-- A reply whose first element has no service. -/
def bareReply : Bytes := encode id (.array [.object []])

/-- The reply has an object for its first element, and that has no members. -/
theorem firstElement_bareReply : FirstElement reference bareReply [] := by
  have hdenotes : Denotes id bareReply (.array [.object []]) :=
    denotes_encode (by simp [Value.All, allElements, allMembers])
  refine ⟨[], ?_⟩
  rw [cstr_of_not_mem hdenotes.nulFree]
  exact reference_parsesFirst _ _ hdenotes

/-- After one address was stored a reply without a service keeps it. -/
theorem keepsList_bareReply : KeepsList reference .enabled oneStored (.answering 8500 (plainReply bareReply)) :=
  (keepsList_iff oneStored_reachable (by decide)
    (@GetHttp.outcome_received _ _ _ _ 8500 (plainReply bareReply) rfl rfl rfl)).1.mpr
    ⟨[], firstElement_bareReply, rfl⟩

/-- Consul cannot be reached: the text `GetHttp` leaves with is no array, and the
    assertion that it is one stops the process. -/
theorem keepsList_fails_unresolved :
    ¬ ∀ (self : Consuld) (ex : Exchange) (reply : Bytes), Reachable reference .enabled self →
      self.upstreams ≠ [] → (GetHttp self.url self.host self.port ex).outcome = .returned reply →
      Fails reference reply → KeepsList reference .enabled self ex := by
  intro h
  have hparse : reference.ParseStopWhenDone (cstr GetHttp.unresolved) = .error ⟨0, 3⟩ := rfl
  let ex : Exchange := { Exchange.answering 8500 {} with connect := .error (lit "Host not found") }
  obtain ⟨v, self', hcall, _⟩ := h oneStored ex GetHttp.unresolved oneStored_reachable (by decide)
    (GetHttp.outcome_unresolved rfl) (by rintro _ _ _ ⟨rest, hok⟩; simp [hparse] at hok)
  obtain ⟨reply, hreply, hafter, _⟩ := Upstream_returned_iff.mp hcall
  rw [GetHttp.outcome_unresolved rfl] at hreply
  cases hreply
  obtain ⟨members, ⟨rest, hok⟩, _⟩ := getupstream_returned_iff.mp hafter
  simp [hparse] at hok

end taraxacum.Consuld
