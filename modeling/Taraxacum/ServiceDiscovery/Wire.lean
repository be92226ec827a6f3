import Mathlib.Data.List.Forall2
import Taraxacum.Http.Prepared
import Taraxacum.ServiceDiscovery.Freshness

open json exec
open taraxacum.rapidjson taraxacum.http

namespace taraxacum

namespace http

/-- What a connection brings, read by read, and how it ends. -/
structure Connection where
  port : UInt16
  reads : List (List Bytes)
  what : Option Bytes

/-- The stream brings `s` and after it `rest`: in reads of one buffer, cut anywhere, or of several
    buffers where nothing follows `s`. -/
structure Connection.Brings (conn : Connection) (s rest : Bytes) : Prop where
  nonempty : ∀ buffers ∈ conn.reads, [] ∉ buffers
  octets : conn.reads.flatten.flatten = s ++ rest
  cut : (∀ buffers ∈ conn.reads, buffers.length ≤ 1) ∨ rest = []

/-- The ways a server may send a response: as `write` does, in chunks of its own choice, or with a
    body that ends where the stream does. -/
inductive Connection.Serves (conn : Connection) (msg : Message) : Prop
  | written {framing : Framing} {s rest : Bytes} (h : msg.WellFormed false framing)
      (hoctets : octets false msg = s ++ msg.leftover) (hbrings : conn.Brings s (msg.leftover ++ rest))
  | chunks {text rest : Bytes} {chunks : List Bytes} (hstart : msg.Startable false)
      (htext : version_text msg.version = some text) (hfields : Carries msg.fields .chunked)
      (hflatten : chunks.flatten = msg.body)
      (hchunks : ∀ data ∈ chunks, data ≠ [] ∧ data.length < 18446744073709551600)
      (hbrings : conn.Brings (start_line false msg text ++ write_fields msg.fields ++
        (crlf ++ (chunks.flatMap (chunk_encode false) ++ chunk_encode_final))) rest)
  | unframed (h : msg.Unframed) (hbrings : conn.Brings (octets false msg) []) (hend : conn.what = none)

/-- The exchange that takes place over the connection. -/
structure Exchange.Over (conn : Connection) (ex : Exchange) : Prop where
  connect : ex.connect = .ok ()
  remote_endpoint : ex.remote_endpoint = .ok conn.port
  write : ex.write = .ok ()
  message : ∀ p dynabuf reads, http.read false conn.what conn.reads = .message p dynabuf reads →
    ex.read = .ok p.derived.m_
  failed : ∀ e, http.read false conn.what conn.reads = .failed e → ∃ what, ex.read = .error what

/-- The message that a server sends is the one that `read` makes of the connection. -/
theorem Connection.Serves.result {conn : Connection} {msg : Message} (h : conn.Serves msg)
    (hfits : msg.Fits false) :
    ∃ rest, (read false conn.what conn.reads).result = some (msg, rest) := by
  cases h with
  | @written framing s rest h hoctets hbrings =>
    obtain ⟨s', c, p, hs', hcompletes, hm⟩ := basic_parser_v1.completes_octets h (Parser.new_start false)
      (Parser.new_untouched false) hfits.bodyRoom hfits.room
    obtain rfl : s = s' := List.append_cancel_right (hoctets.symm.trans hs')
    refine ⟨msg.leftover ++ rest, ?_⟩
    rw [Parser.read_completes hcompletes conn.what hbrings.nonempty hbrings.octets hbrings.cut, hm]
  | @chunks text rest chunks hstart htext hfields hflatten hchunks hbrings =>
    obtain ⟨c, p, hcompletes, hm⟩ := basic_parser_v1.completes_in_chunks hstart htext hfields hflatten hchunks
      (Parser.new_start false) (Parser.new_untouched false) hfits.bodyRoom hfits.room
    refine ⟨rest, ?_⟩
    rw [Parser.read_completes hcompletes conn.what hbrings.nonempty hbrings.octets hbrings.cut, hm]
  | unframed h hbrings hend =>
    refine ⟨[], ?_⟩
    rw [Parser.read_unframed conn.what h hfits hbrings.nonempty (by rw [hbrings.octets, List.append_nil]), hend]
    rfl

/-- The exchange succeeds with the response the server sent. -/
theorem Exchange.Over.succeeds {conn : Connection} {ex : Exchange} {msg : Message} (h : ex.Over conn)
    (hserves : conn.Serves msg) (hfits : msg.Fits false) : ex.Succeeds msg := by
  obtain ⟨rest, hresult⟩ := hserves.result hfits
  cases hread : http.read false conn.what conn.reads with
  | message p dynabuf reads =>
    have hok := h.message p dynabuf reads hread
    rw [hread] at hresult
    obtain ⟨rfl, -⟩ := Prod.mk.inj (Option.some.inj hresult)
    refine ⟨h.connect, ⟨conn.port, h.remote_endpoint⟩, ?_⟩
    rw [Exchange.reply, h.write, hok]
  | failed | aborted | undefined =>
    rw [hread] at hresult
    cases hresult

/-- Every response a server sends can be what an exchange brings. -/
theorem Exchange.over_of_serves {conn : Connection} {msg : Message} (hserves : conn.Serves msg)
    (hfits : msg.Fits false) :
    (Exchange.answering conn.port msg).Over conn := by
  obtain ⟨rest, hresult⟩ := hserves.result hfits
  refine ⟨rfl, rfl, rfl, ?_, ?_⟩
  · intro p dynabuf reads hread
    rw [hread] at hresult
    obtain ⟨hm, -⟩ := Prod.mk.inj (Option.some.inj hresult)
    rw [hm]
    rfl
  · intro e hread
    rw [hread] at hresult
    cases hresult

end http

namespace GetHttp

/-- The fields of `GetHttp` are plain for a host of text. -/
theorem fields_allPlain {host : Bytes} (hhost : ∀ ch ∈ host, is_text ch = true) (port : UInt16) :
    (fields host port).AllPlain :=
  .replace (.replace Fields.allPlain_nil (plain_names _ (by simp)) (text_of_host hhost port))
    (plain_names _ (by simp))
    (by decide +kernel)

/-- The octets that the fields of `GetHttp` take of the parser's limit, one by one. -/
theorem fields_size (host : Bytes) (port : UInt16) : (fields host port).size ≤ 0 + (host.length + 10) + 25 := by
  have hhost := length_of_host host port
  have hname : (lit "Host").length = 4 := rfl
  exact Fields.size_replace (Fields.size_replace (Nat.le_refl 0) (by omega)) (by decide)

/-- Besides its request `GetHttp` only prints. -/
theorem prints (url host port : Bytes) : (client url host port).Prints where
  announce := .emit ⟨_, rfl⟩
  unresolved := .bind (.emit ⟨_, rfl⟩) fun _ _ => .pure _
  connected := .emit ⟨_, rfl⟩
  request endpoint := prepare_local rfl (fields_unreserved host endpoint)
  received _ := .bind (.emit ⟨_, rfl⟩) fun _ _ => .pure _
  failed _ := .bind (.emit ⟨_, rfl⟩) fun _ _ => .pure _

end GetHttp

namespace Consuld

section
variable {ν : Type}

/-- The exchange of one call goes over a connection on which a server sends a reply that puts `address`
    first. -/
def Delivers (num : Bytes → ν) (ex : Exchange) (address : Bytes) : Prop :=
  ∃ conn msg, ex.Over conn ∧ conn.Serves msg ∧ msg.Fits false ∧ IsReply num msg.body address

variable {num : Bytes → ν} {rj : Rapidjson ν} {mode : Assertions}

/-- A connection that brings an address first makes an exchange that fetches it. -/
theorem Delivers.fetches {ex : Exchange} {address : Bytes} (h : Delivers num ex address) :
    Fetches num ex address := by
  obtain ⟨conn, msg, hover, hserves, hfits, hreply⟩ := h
  exact ⟨msg, hover.succeeds hserves hfits, hreply⟩

/-- A run of calls against servers that send their replies with a length, in chunks or up to the end
    of the stream: every address is stored, and the one stored first is what each call returns. -/
theorem calls_over_connections (hparse : ParsesTexts num rj.ParseStopWhenDone) {exs : List Exchange}
    {addresses : List Bytes} (hdelivers : List.Forall₂ (Delivers num) exs addresses) (self : Consuld) :
    (calls rj mode self exs).outcome =
      .returned (addresses.map fun _ => cstr (self.upstreams.headD (addresses.headD [])),
        { self with upstreams := self.upstreams ++ addresses.map cstr }) :=
  calls_of_fetches hparse (hdelivers.imp fun _ _ h => h.fetches) self

end

/-- A connection that brings it octet by octet. -/
def trickling (body : Bytes) : http.Connection :=
  { port := 8500, reads := (octets false (plainReply body)).map fun ch => [[ch]], what := none }

/-- A server that sends one octet at a time, and then closes the connection, serves the same. -/
theorem trickling_serves (body : Bytes) : (trickling body).Serves (plainReply body) := by
  have hstart : (plainReply body).Startable false :=
    { version := .inr rfl
      method := fun h => by cases h
      url := fun h => by cases h
      status := fun _ => by change 100 ≤ 200 ∧ 200 ≤ 999; decide
      reason := fun _ => by change ∀ ch ∈ lit "OK", is_text ch = true; decide +kernel
      request := fun h => by cases h
      response := fun _ => ⟨rfl, rfl⟩ }
  refine .unframed ⟨hstart, .nil, by change ¬(200 / 100 = 1 ∨ 200 = 204 ∨ 200 = 304); decide⟩
    ⟨?_, ?_, .inr rfl⟩ rfl
  · intro buffers hbuffers
    obtain ⟨ch, -, rfl⟩ := List.mem_map.mp hbuffers
    simp
  · have hflatten : ∀ s : Bytes, (s.map fun ch => [[ch]]).flatten.flatten = s := by
      intro s
      induction s with
      | nil => rfl
      | cons ch s ih => simp [ih]
    rw [trickling, hflatten, List.append_nil]

/-- One call, over a connection with a reply of Consul in it. -/
theorem calls_over_connections_one :
    (calls reference .enabled atConsul [fetching (lit "10.0.0.1")]).outcome =
      .returned ([lit "10.0.0.1"], { atConsul with upstreams := [lit "10.0.0.1"] }) := by
  have hfits : (plainReply (shortReply (lit "10.0.0.1"))).Fits false :=
    ⟨by change 0 + 0 + 2 + 0 ≤ 16 * 1024; decide, fun h => by cases h⟩
  have hserves := trickling_serves (shortReply (lit "10.0.0.1"))
  have hdelivers : Delivers id (fetching (lit "10.0.0.1")) (lit "10.0.0.1") := by
    refine ⟨_, _, Exchange.over_of_serves hserves hfits, hserves, hfits, ?_⟩
    exact ⟨_, _, [], denotes_encode (by simp [Value.All, allElements, allMembers]), rfl, _, rfl, rfl⟩
  exact calls_over_connections reference_parsesFirst (.cons hdelivers .nil) atConsul

end Consuld

end taraxacum
