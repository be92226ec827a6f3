import Taraxacum.Config
import Taraxacum.ServiceDiscovery.GetHttp

open json exec
open taraxacum.rapidjson taraxacum.http

namespace taraxacum

structure InfluxDB where
  influx_host : Bytes
  influx_port : Bytes
  influx_db : Bytes

namespace InfluxDB

def settings : Section where
  loading := lit "loading data\n"
  key := lit "Influx"
  usage :=
    [lit "config.json should have a key named Influx with the following format \n",
      lit "\"Influx\": [\"host\",\"port\",\"mydb\",\"url\"]\" \n"]

/-- The default constructor. -/
def Loadconfig {ν : Type} (rj : Rapidjson ν) (mode : Assertions) (env : Environment) : Call InfluxDB := do
  let (influx_host, influx_port, influx_db) ← settings.Loadconfig rj mode env
  return { influx_host, influx_port, influx_db }

def unresolved : Bytes := lit "\x7berr: \" Cannot Resolve Host \" \x7d"

def failed : Bytes := lit "\x7b \"err\": \"Cannot Write to DB\"\x7d"

def cannotResolve (db : InfluxDB) : Call Unit :=
  cout (lit "Err Cannot resolve host " ++ db.influx_host ++ lit " at port " ++ db.influx_port ++ lit "\n")

def cannotWrite (e : Exception) : Call Unit := do
  cout (lit "Cannot Write data to InfluxDB\n")
  cout (lit "Stack:" ++ e.what ++ lit "\n")

def Write.fields (db : InfluxDB) (port : UInt16) : Fields :=
  let fields : Fields := []
  let fields := fields.replace (lit "Host") (db.influx_host ++ lit ":" ++ decimal port.toNat)
  let fields := fields.replace (lit "User-Agent") (lit "Beast")
  let fields := fields.insert (lit "Content-Type") (lit "application/x-www-form-urlencoded")
  fields.insert (lit "Accept") (lit " */*")

def Write.message (db : InfluxDB) (data : Bytes) (port : UInt16) : Request where
  method := lit "POST"
  url := lit "/write?db=" ++ db.influx_db
  version := 11
  fields := Write.fields db port
  body := data

def Write.request (db : InfluxDB) (data : Bytes) (port : UInt16) : Call Request := do
  cout (lit "Sending data " ++ data ++ lit " to InfluxDB\n")
  prepare (some data.length) (Write.message db data port)

def Write.client (mode : Assertions) (db : InfluxDB) (data : Bytes) : Client Unit where
  host := db.influx_host
  port := db.influx_port
  announce := pure ()
  unresolved := db.cannotResolve
  connected := pure ()
  request := Write.request db data
  received resp := print mode false resp
  failed := cannotWrite

def Write (mode : Assertions) (db : InfluxDB) (data : Bytes) (ex : Exchange) : Call Unit :=
  (Write.client mode db data).run ex

def Query.fields (db : InfluxDB) (port : UInt16) : Fields :=
  let fields : Fields := []
  let fields := fields.replace (lit "User-Agent") (lit "Beast")
  let fields := fields.insert (lit "Content-Type") (lit "application/x-www-form-urlencoded")
  let fields := fields.insert (lit "Accept") (lit " */*")
  let fields := fields.replace (lit "Host") (db.influx_host ++ lit ":" ++ decimal port.toNat)
  fields.replace (lit "User-Agent") (lit "Beast")

def Query.message (db : InfluxDB) (query : Bytes) (port : UInt16) : Request where
  method := lit "POST"
  url := lit "/query"
  version := 11
  fields := Query.fields db port
  body := query

def Query.request (db : InfluxDB) (query : Bytes) (port : UInt16) : Call Request :=
  prepare (some query.length) (Query.message db query port)

def Query.client (mode : Assertions) (db : InfluxDB) (query : Bytes) : Client Bytes where
  host := db.influx_host
  port := db.influx_port
  announce := cout (lit "Connecting to " ++ db.influx_host ++ lit " port:" ++ db.influx_port ++ lit "\n")
  unresolved := do
    db.cannotResolve
    return unresolved
  connected := pure ()
  request := Query.request db query
  -- Nothing is returned after the response is printed: control flows off the end.
  received resp := do
    print mode false resp
    Exec.undefinedBehaviour
  failed e := do
    cannotWrite e
    return failed

def Query (mode : Assertions) (db : InfluxDB) (query : Bytes) (ex : Exchange) : Call Bytes :=
  (Query.client mode db query).run ex

/-- `Write` sets no field that `prepare` refuses. -/
theorem Write.fields_unreserved (db : InfluxDB) (port : UInt16) : (Write.fields db port).Unreserved := by
  unfold Write.fields
  refine .insert (.insert (.replace (.replace Fields.unreserved_nil ?_ _) ?_ _) ?_ _) ?_ _ <;> decide

/-- `Query` sets no field that `prepare` refuses. -/
theorem Query.fields_unreserved (db : InfluxDB) (port : UInt16) : (Query.fields db port).Unreserved := by
  unfold Query.fields
  refine .replace (.replace (.insert (.insert (.replace Fields.unreserved_nil ?_ _) ?_ _) ?_ _) ?_ _) ?_ _ <;>
    decide

/-- Nothing can go wrong in `Write` before its request is written but the connection: `prepare`
    refuses none of its fields. -/
theorem Write.quiet (mode : Assertions) (db : InfluxDB) (data : Bytes) : (Write.client mode db data).Quiet where
  announce := rfl
  connected := rfl
  request port :=
    prepare_outcome Event (some data.length) (Write.message db data port) rfl (fields_unreserved db port)

/-- Nothing can go wrong in `Query` before its request is written but the connection: `prepare`
    refuses none of its fields. -/
theorem Query.quiet (mode : Assertions) (db : InfluxDB) (query : Bytes) :
    (Query.client mode db query).Quiet where
  announce := rfl
  connected := rfl
  request port :=
    prepare_outcome Event (some query.length) (Query.message db query port) rfl (fields_unreserved db port)

end InfluxDB

end taraxacum
