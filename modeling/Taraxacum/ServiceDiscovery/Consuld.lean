import Taraxacum.Config
import Taraxacum.ServiceDiscovery.GetHttp

open json exec
open taraxacum.rapidjson taraxacum.http

namespace taraxacum

structure Consuld where
  host : Bytes
  port : Bytes
  url : Bytes
  upstreams : List Bytes
  deriving DecidableEq

namespace Consuld

def settings : Section where
  loading := lit "loading Consul data\n"
  key := lit "Consuld"
  usage :=
    [lit "config.json should have a key named Consuld with the following format \n",
      lit "\"Consuld\": [\"host\",\"port\",\"mydb\",\"url\"]\" \n"]

/-- The constructor from a url, a host and a port. -/
def new (url host port : Bytes) : Consuld := { host, port, url, upstreams := [] }

def sethost (self : Consuld) (_host : Bytes) : Consuld := { self with host := _host }

section
variable {ν : Type} (rj : Rapidjson ν) (mode : Assertions)

/-- The default constructor. -/
def Loadconfig (env : Environment) : Call Consuld := do
  let (host, port, url) ← settings.Loadconfig rj mode env
  return { host, port, url, upstreams := [] }

/-- The branch for a parse error, which does not return. -/
def reportParse (parsed : Except ParseError (Value ν)) : Call Unit :=
  match parsed with
  | .error e => do
    cout (lit "\x7b\"errcode:\"" ++ decimal (UInt32.ofNat e.GetErrorOffset).toNat ++ lit "\n")
    cout (lit ", \"errmsg\":" ++ rj.GetParseError_En e.GetParseError ++ lit "\n")
    cout (lit "\x7d\n")
    cout (lit "Consul is down ? not updating upstream list\n")
  | .ok _ => pure ()

def getupstream (self : Consuld) (json : Bytes) : Call Consuld := do
  -- `json.data()` is read as a C string.
  let parsed := rj.ParseStopWhenDone (cstr json)
  reportParse rj parsed
  let d := document parsed
  assert mode (IsArray d)
  if ← HasMember mode (← element mode d 0) (lit "Service") then
    cout (lit "getting service\n")
    let v ← member mode (← element mode d 0) (lit "Service")
    let address ← GetString mode (← member mode v (lit "Address"))
    return { self with upstreams := self.upstreams ++ [cstr address] }
  else
    return self

/-- `front()` on an empty vector is undefined; on any other it is the string
    stored first. -/
def Upstream (self : Consuld) (ex : Exchange) : Call (Bytes × Consuld) := do
  let reply ← GetHttp self.url self.host self.port ex
  let self ← getupstream rj mode self reply
  match self.upstreams with
  | front :: _ => return (cstr front, self)
  | [] => Exec.undefinedBehaviour

/-- Calls of `Upstream` one after the other on one object: what each returned,
    and the object after the last. -/
def calls (self : Consuld) : List Exchange → Call (List Bytes × Consuld)
  | [] => return ([], self)
  | ex :: exs => do
    let (v, self) ← Upstream rj mode self ex
    let (vs, self) ← calls self exs
    return (v :: vs, self)

end

section
variable {ν : Type} {rj : Rapidjson ν} {mode : Assertions}

/-- The reply's first element, as RapidJSON reads it, is an object with these members. -/
def FirstElement (rj : Rapidjson ν) (reply : Bytes) (members : List (Bytes × Value ν)) : Prop :=
  ∃ rest, rj.ParseStopWhenDone (cstr reply) = .ok (.array (.object members :: rest))

/-- The address of a service entry, where it has one. -/
def IsAddress (service : Value ν) (address : Bytes) : Prop :=
  ∃ members, service = .object members ∧ members.lookup (lit "Address") = some (.string address)

/-- A parse error is printed, and `getupstream` goes on. -/
theorem reportParse_outcome (parsed : Except ParseError (Value ν)) :
    (reportParse rj parsed).outcome = .returned () := by
  cases parsed <;> rfl

/-- A first element with a service appends its address to the list. -/
theorem getupstream_of_service {self : Consuld} {reply address : Bytes} {members : List (Bytes × Value ν)}
    {service : Value ν} (hfirst : FirstElement rj reply members)
    (hservice : members.lookup (lit "Service") = some service) (haddress : IsAddress service address) :
    (getupstream rj mode self reply).outcome =
      .returned { self with upstreams := self.upstreams ++ [cstr address] } := by
  obtain ⟨rest, hparse⟩ := hfirst
  obtain ⟨fields, rfl, haddress⟩ := haddress
  have hget : (Value.object members :: rest)[0]? = some (.object members) := rfl
  rw [getupstream, Exec.bind_outcome_of_returned (reportParse_outcome _)]
  simp only [hparse, document, assert, IsArray, if_true, pure_bind, element_of_getElem? hget,
    HasMember_of_lookup hservice, Option.isSome_some, cout, Exec.emit_bind_outcome,
    member_of_lookup hservice, member_of_lookup haddress, GetString, Exec.pure_outcome]

/-- A first element without a service leaves the list as it was. -/
theorem getupstream_of_no_service {self : Consuld} {reply : Bytes} {members : List (Bytes × Value ν)}
    (hfirst : FirstElement rj reply members) (hservice : members.lookup (lit "Service") = none) :
    (getupstream rj mode self reply).outcome = .returned self := by
  obtain ⟨rest, hparse⟩ := hfirst
  have hget : (Value.object members :: rest)[0]? = some (.object members) := rfl
  rw [getupstream, Exec.bind_outcome_of_returned (reportParse_outcome _)]
  simp only [hparse, document, assert, IsArray, if_true, pure_bind, element_of_getElem? hget,
    HasMember_of_lookup hservice, Option.isSome_none, Bool.false_eq_true, if_false, Exec.pure_outcome]

end

end Consuld

end taraxacum
