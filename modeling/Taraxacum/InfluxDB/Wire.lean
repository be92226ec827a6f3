import Taraxacum.Http.Prepared
import Taraxacum.InfluxDB

open json exec
open taraxacum.http

namespace taraxacum.InfluxDB

section
variable {db : InfluxDB}

/-- The fields of `Write` are plain for a host of text. -/
theorem Write.fields_allPlain (hhost : ∀ ch ∈ db.influx_host, is_text ch = true) (port : UInt16) :
    (Write.fields db port).AllPlain := by
  refine .insert (.insert (.replace (.replace Fields.allPlain_nil ?_
    (text_of_host hhost port)) ?_ ?_) ?_ ?_) ?_ ?_
  · exact plain_names _ (by simp)
  · exact plain_names _ (by simp)
  · decide +kernel
  · exact plain_names _ (by simp)
  · decide +kernel
  · exact plain_names _ (by simp)
  · decide +kernel

/-- The fields of `Query` are plain for a host of text. -/
theorem Query.fields_allPlain (hhost : ∀ ch ∈ db.influx_host, is_text ch = true) (port : UInt16) :
    (Query.fields db port).AllPlain := by
  refine .replace (.replace (.insert (.insert (.replace Fields.allPlain_nil ?_ ?_) ?_ ?_) ?_ ?_) ?_
    (text_of_host hhost port)) ?_ ?_
  · exact plain_names _ (by simp)
  · decide +kernel
  · exact plain_names _ (by simp)
  · decide +kernel
  · exact plain_names _ (by simp)
  · decide +kernel
  · exact plain_names _ (by simp)
  · exact plain_names _ (by simp)
  · decide +kernel

end

/-- The octets that the fields of `Write` take of the parser's limit, one by one. -/
theorem Write.fields_size (db : InfluxDB) (port : UInt16) :
    (Write.fields db port).size ≤ 0 + (db.influx_host.length + 10) + 15 + 45 + 10 := by
  have hhost := length_of_host db.influx_host port
  have hname : (lit "Host").length = 4 := rfl
  exact Fields.size_insert (Fields.size_insert
    (Fields.size_replace (Fields.size_replace (Nat.le_refl 0) (by omega))
    (by decide)) (by decide)) (by decide)

/-- The octets that the fields of `Query` take of the parser's limit, one by one. -/
theorem Query.fields_size (db : InfluxDB) (port : UInt16) :
    (Query.fields db port).size ≤ 0 + 15 + 45 + 10 + (db.influx_host.length + 10) + 15 := by
  have hhost := length_of_host db.influx_host port
  have hname : (lit "Host").length = 4 := rfl
  exact Fields.size_replace (Fields.size_replace (Fields.size_insert (Fields.size_insert (Fields.size_replace
    (Nat.le_refl 0) (by decide)) (by decide)) (by decide)) (by omega)) (by decide)

/-- A POST always says how long its data is. -/
theorem sized_post {msg : Request} (hpost : msg.method = lit "POST") :
    msg.sized = { msg with fields := msg.fields.insert (lit "Content-Length") (decimal msg.body.length) } := by
  have hequal : ci_equal msg.method (lit "POST") = true := by
    rw [hpost]
    decide
  rw [Request.sized, hequal, Bool.or_true, if_pos rfl]

/-- A POST of `data` that fits a new parser. -/
theorem post_arrives {url data : Bytes} {fields : Fields} {n : Nat} (hurl : url ≠ [])
    (htext : ∀ ch ∈ url, is_text ch = true ∧ ch ≠ 0x20) (hfields : fields.AllPlain) (hsize : fields.size ≤ n)
    (hheader : url.length + n ≤ 16 * 1024 - 25) (hdata : data.length ≤ 4 * 1024 * 1024) :
    (Request.sized { method := lit "POST", url, version := 11, fields, body := data }).Arrives := by
  set msg : Request := { method := lit "POST", url, version := 11, fields, body := data }
  have hmethod : lit "POST" ≠ [] ∧ ∀ ch ∈ lit "POST", is_tchar ch = true := by decide +kernel
  have hsendable : msg.Sendable := ⟨rfl, hmethod, ⟨hurl, htext⟩, hfields, by change data.length < _; omega⟩
  have hlength : (decimal data.length).length ≤ 7 := length_decimal_le 6 (by omega)
  have hname : (lit "Content-Length").length = 14 := rfl
  have hinsert : (fields.insert (lit "Content-Length") (decimal data.length)).size ≤ n + 21 :=
    Fields.size_insert hsize (by omega)
  refine hsendable.arrives ?_
  rw [sized_post rfl]
  refine ⟨?_, fun _ => hdata⟩
  change 4 + url.length + 0 + (fields.insert (lit "Content-Length") (decimal data.length)).size ≤ _
  omega

/-- A host that is not resolved is reported on the console only. -/
theorem cannotResolve_local (db : InfluxDB) : db.cannotResolve.Emits Local := .emit ⟨_, rfl⟩

theorem cannotWrite_local (e : Exception) : (cannotWrite e).Emits Local :=
  .bind (.emit ⟨_, rfl⟩) fun _ _ => .emit ⟨_, rfl⟩

/-- Besides its request `Write` only prints. -/
theorem Write.prints (mode : Assertions) (db : InfluxDB) (data : Bytes) :
    (Write.client mode db data).Prints where
  announce := .pure _
  unresolved := cannotResolve_local db
  connected := .pure _
  request port := .bind (.emit ⟨_, rfl⟩) fun _ _ => prepare_local rfl (fields_unreserved db port)
  received resp := print_emits (fun text => ⟨text, rfl⟩) mode false resp
  failed := cannotWrite_local

/-- Besides its request `Query` only prints. -/
theorem Query.prints (mode : Assertions) (db : InfluxDB) (query : Bytes) :
    (Query.client mode db query).Prints where
  announce := .emit ⟨_, rfl⟩
  unresolved := .bind (cannotResolve_local db) fun _ _ => .pure _
  connected := .pure _
  request port := prepare_local rfl (fields_unreserved db port)
  received resp := .bind (print_emits (fun text => ⟨text, rfl⟩) mode false resp) fun _ _ =>
    .of_events_eq_nil rfl
  failed e := .bind (cannotWrite_local e) fun _ _ => .pure _

end taraxacum.InfluxDB
