import Taraxacum.Http.Client

open json exec
open taraxacum.http

namespace taraxacum

namespace GetHttp

def unresolved : Bytes := lit "\x7berr: \" Cannot Resolve Host \" \x7d"

def failed : Bytes := lit "\x7b \"err\": \"Cannot get data from Consuld\"\x7d"

def fields (host : Bytes) (port : UInt16) : Fields :=
  let fields : Fields := []
  let fields := fields.replace (lit "Host") (host ++ lit ":" ++ decimal port.toNat)
  fields.replace (lit "User-Agent") (lit "Taraxacum/Beast")

def message (url host : Bytes) (port : UInt16) : Request where
  method := lit "GET"
  url
  version := 11
  fields := fields host port

def request (url host : Bytes) (port : UInt16) : Call Request := prepare (some 0) (message url host port)

def client (url host port : Bytes) : Client Bytes where
  host
  port
  announce := cout (lit "Trying host " ++ host ++ lit " port " ++ port ++ lit "  url " ++ url ++ lit "\n")
  unresolved := do
    cout (lit "Err Cannot resolve host " ++ host ++ lit " at port " ++ port ++ lit "\n")
    return unresolved
  connected := cout (lit "Preparing request\n")
  request := request url host
  received resp := do
    cout (lit "resp:<" ++ resp.body ++ lit ">:end\n")
    return resp.body
  failed e := do
    cout (lit "Stack:" ++ e.what ++ lit "\n")
    return failed

end GetHttp

/-- `GetHttp`, and `GetHttp2` of app1, which is the same function under another name. -/
def GetHttp (url host port : Bytes) (ex : Exchange) : Call Bytes := (GetHttp.client url host port).run ex

namespace GetHttp

/-- `GetHttp` sets no field that `prepare` refuses. -/
theorem fields_unreserved (host : Bytes) (port : UInt16) : (fields host port).Unreserved := by
  unfold fields
  refine .replace (.replace Fields.unreserved_nil ?_ _) ?_ _ <;> decide

/-- The request keeps the url it was given: only fields are added to it. -/
theorem request_returns (url host : Bytes) (port : UInt16) :
    ∃ fields, request url host port = pure { message url host port with fields } :=
  prepare_returns Event (some 0) (message url host port) rfl (fields_unreserved host port)

/-- Nothing can go wrong before the request is written but the connection: `prepare` refuses none of
    the fields, and printing is taken never to fail. -/
theorem quiet (url host port : Bytes) : (client url host port).Quiet where
  announce := rfl
  connected := rfl
  request endpoint :=
    prepare_outcome Event (some 0) (message url host endpoint) rfl (fields_unreserved host endpoint)

variable {url host port : Bytes} {ex : Exchange}

/-- Where `connect` throws, the text for a host that cannot be resolved is returned. -/
theorem outcome_unresolved {what : Bytes} (hconnect : ex.connect = .error what) :
    (GetHttp url host port ex).outcome = .returned unresolved :=
  Client.run_unresolved (quiet url host port) hconnect

/-- A peer that is gone by then makes `remote_endpoint` throw out of both `try` blocks. -/
theorem outcome_unconnected {what : Bytes} (hconnect : ex.connect = .ok ())
    (hendpoint : ex.remote_endpoint = .error what) :
    (GetHttp url host port ex).outcome = .threw (.system_error what) :=
  Client.run_unconnected (quiet url host port) hconnect hendpoint

/-- A failed `write` or `read` is turned into the text for it. -/
theorem outcome_failed {endpoint : UInt16} {what : Bytes} (hconnect : ex.connect = .ok ())
    (hendpoint : ex.remote_endpoint = .ok endpoint) (hreply : ex.reply = .error what) :
    (GetHttp url host port ex).outcome = .returned failed :=
  Client.run_failed (quiet url host port) hconnect hendpoint hreply

/-- The body of the reply is returned as it came, whatever its status is. -/
theorem outcome_received {endpoint : UInt16} {resp : Message} (hconnect : ex.connect = .ok ())
    (hendpoint : ex.remote_endpoint = .ok endpoint) (hreply : ex.reply = .ok resp) :
    (GetHttp url host port ex).outcome = .returned resp.body :=
  Client.run_received (quiet url host port) hconnect hendpoint hreply

end GetHttp

end taraxacum
