import Taraxacum.Json.Text
import Taraxacum.InfluxDB

open json exec

namespace taraxacum.http

/-- The call returns, whatever happens: the body of the response when every step
    succeeded, and a JSON object with an `err` member otherwise. -/
def AnswersOrReports {ν : Type} (num : Bytes → ν) (ex : Exchange) (call : Call Bytes) : Prop :=
  ∃ s, call.outcome = .returned s ∧ (∀ resp, ex.Succeeds resp → s = resp.body) ∧
    ((∀ resp, ¬ ex.Succeeds resp) → IsObjectWith num s (lit "err"))

section
variable {ν : Type} (num : Bytes → ν)

/-- The failure texts of the clients are JSON objects with an `err`, if their message is plain. -/
theorem isObjectWith_err (text : Bytes) (hplain : isPlain text = true) :
    IsObjectWith num (lit "\x7b \"err\": \"" ++ text ++ lit "\"\x7d") (lit "err") := by
  have hname : Chars (lit "err\": \"" ++ (text ++ lit "\"\x7d")) (lit "err")
      (lit ": \"" ++ (text ++ lit "\"\x7d")) :=
    .of_plain (d := lit "err") (by decide) _
  have hvalue : IsValue num (lit "\"" ++ (text ++ lit "\"\x7d")) (.string text) (lit "\x7d") :=
    .plainString hplain _
  have hmembers : IsMembers num (lit " \"err\": \"" ++ (text ++ lit "\"\x7d"))
      [(lit "err", .string text)] [] :=
    .last (.cons (by decide) .nil) hname .nil (.cons (by decide) .nil) hvalue .nil
  rw [List.append_assoc]
  exact ⟨_, .object hmembers, rfl⟩

/-- What `GetHttp` returns when the exchange fails is a JSON object with an `err`. -/
theorem getHttp_failed_isObjectWith : IsObjectWith num GetHttp.failed (lit "err") :=
  isObjectWith_err num (lit "Cannot get data from Consuld") (by decide)

/-- What `Query` returns when the exchange fails is a JSON object with an `err`. -/
theorem query_failed_isObjectWith : IsObjectWith num InfluxDB.failed (lit "err") :=
  isObjectWith_err num (lit "Cannot Write to DB") (by decide)

/-- The text both string operations leave with when they cannot connect, the same in
    either, has a name without quotes. -/
theorem unresolved_not_wellFormed : ¬ WellFormed num GetHttp.unresolved := not_wellFormed rfl

end

section
variable {ν : Type} {num : Bytes → ν} {ex : Exchange}

variable {call : Call Bytes}

/-- The text for a host that is not resolved has no quotes around `err`, so that a call that returns
    it reports nothing. -/
theorem not_answersOrReports_of_unresolved {what : Bytes} (hconnect : ex.connect = .error what)
    (hcall : call.outcome = .returned GetHttp.unresolved) : ¬ AnswersOrReports num ex call := by
  rintro ⟨s, hs, _, hreports⟩
  obtain rfl : GetHttp.unresolved = s := by simpa [hcall] using hs
  exact unresolved_not_wellFormed num (hreports (Exchange.not_succeeds_of_connect hconnect)).wellFormed

/-- A call that throws neither answers nor reports. -/
theorem not_answersOrReports_of_threw {e : Exception} (hcall : call.outcome = .threw e) :
    ¬ AnswersOrReports num ex call := by
  rintro ⟨s, hs, _⟩
  rw [hcall] at hs
  cases hs

/-- A failed exchange is reported by any object with an `err`. -/
theorem answersOrReports_of_failed {what text : Bytes} (hreply : ex.reply = .error what)
    (hcall : call.outcome = .returned text) (htext : IsObjectWith num text (lit "err")) :
    AnswersOrReports num ex call :=
  ⟨text, hcall, fun resp h => absurd h (Exchange.not_succeeds_of_reply hreply resp), fun _ => htext⟩

/-- A reply is answered by its body. -/
theorem answersOrReports_of_received {resp : Message} (hsucceeds : ex.Succeeds resp)
    (hcall : call.outcome = .returned resp.body) : AnswersOrReports num ex call := by
  refine ⟨resp.body, hcall, ?_, fun hfails => absurd hsucceeds (hfails resp)⟩
  intro resp' hsucceeds'
  have hreply := hsucceeds.reply.symm.trans hsucceeds'.reply
  rw [Except.ok.inj hreply]

/-- `GetHttp` keeps its promise exactly when the peer is there and stays until
    its port is known: an error text without quotes, or an exception, otherwise. -/
theorem getHttp_answersOrReports_iff (url host port : Bytes) :
    AnswersOrReports num ex (GetHttp url host port ex) ↔ ex.Connected := by
  rcases ex.cases with ⟨what, hconnect⟩ | ⟨hconnect, what, hendpoint⟩ |
    ⟨hconnect, endpoint, what, hendpoint, hreply⟩ | ⟨hconnect, endpoint, resp, hendpoint, hreply⟩
  · exact iff_of_false
      (not_answersOrReports_of_unresolved hconnect (GetHttp.outcome_unresolved hconnect))
      fun h => h.connect_ne hconnect
  · exact iff_of_false
      (not_answersOrReports_of_threw (GetHttp.outcome_unconnected hconnect hendpoint))
      fun h => h.remote_endpoint_ne hendpoint
  · exact iff_of_true
      (answersOrReports_of_failed hreply (GetHttp.outcome_failed hconnect hendpoint hreply)
        (getHttp_failed_isObjectWith num))
      ⟨hconnect, endpoint, hendpoint⟩
  · exact iff_of_true
      (answersOrReports_of_received ⟨hconnect, ⟨endpoint, hendpoint⟩, hreply⟩
        (GetHttp.outcome_received hconnect hendpoint hreply))
      ⟨hconnect, endpoint, hendpoint⟩

section
variable {mode : Assertions} {db : InfluxDB} {endpoint : UInt16} {resp : Message}
  (hconnect : ex.connect = .ok ()) (hendpoint : ex.remote_endpoint = .ok endpoint)
  (hreply : ex.reply = .ok resp)
include hconnect hendpoint hreply

/-- A response that can be printed takes `Query` to its end, where no value is returned. -/
theorem query_printed {query : Bytes} (hprint : Printable mode resp) :
    (db.Query mode query ex).outcome = .undefined := by
  have hundefined : ((InfluxDB.Query.client mode db query).received resp).outcome = .undefined :=
    Exec.bind_outcome_of_returned (print_outcome hprint false) _
  rw [InfluxDB.Query, Client.run_received (InfluxDB.Query.quiet mode db query) hconnect hendpoint hreply]
  simp [catchRuntimeError, Exec.attempt, hundefined, Exec.bind_def, Exec.bind]

/-- A response that cannot be printed stops the process in `Query`. -/
theorem query_unprinted {query : Bytes} (hprint : ¬ Printable mode resp) :
    (db.Query mode query ex).outcome = .aborted := by
  have haborted : (InfluxDB.Query.client mode db query).received resp = Exec.abort := by
    simp [InfluxDB.Query.client, print_aborts hprint]
  rw [InfluxDB.Query, Client.run_received (InfluxDB.Query.quiet mode db query) hconnect hendpoint hreply,
    haborted]
  rfl

/-- `Write` prints the response, if it can be printed, and returns. -/
theorem write_printed {data : Bytes} (hprint : Printable mode resp) :
    (db.Write mode data ex).outcome = .returned () := by
  have hreturned : ((InfluxDB.Write.client mode db data).received resp).outcome = .returned () :=
    print_outcome hprint false
  rw [InfluxDB.Write, Client.run_received (InfluxDB.Write.quiet mode db data) hconnect hendpoint hreply]
  simp [catchRuntimeError, Exec.attempt, hreturned, Exec.bind_def, Exec.bind]

/-- A response that cannot be printed stops the process in `Write`. -/
theorem write_unprinted {data : Bytes} (hprint : ¬ Printable mode resp) :
    (db.Write mode data ex).outcome = .aborted := by
  have haborted : (InfluxDB.Write.client mode db data).received resp = Exec.abort := print_aborts hprint false
  rw [InfluxDB.Write, Client.run_received (InfluxDB.Write.quiet mode db data) hconnect hendpoint hreply,
    haborted]
  rfl

end

/-- `Query` keeps its promise only when the exchange fails late: where every step
    succeeds it flows off its end, if printing the response has not stopped the process. -/
theorem query_answersOrReports_iff (mode : Assertions) (db : InfluxDB) (query : Bytes) :
    AnswersOrReports num ex (db.Query mode query ex) ↔ ex.Connected ∧ ∃ what, ex.reply = .error what := by
  have hquiet := InfluxDB.Query.quiet mode db query
  rcases ex.cases with ⟨what, hconnect⟩ | ⟨hconnect, what, hendpoint⟩ |
    ⟨hconnect, endpoint, what, hendpoint, hreply⟩ | ⟨hconnect, endpoint, resp, hendpoint, hreply⟩
  · exact iff_of_false
      (not_answersOrReports_of_unresolved hconnect (Client.run_unresolved hquiet hconnect))
      fun h => h.1.connect_ne hconnect
  · exact iff_of_false
      (not_answersOrReports_of_threw (Client.run_unconnected hquiet hconnect hendpoint))
      fun h => h.1.remote_endpoint_ne hendpoint
  · exact iff_of_true
      (answersOrReports_of_failed hreply (Client.run_failed hquiet hconnect hendpoint hreply)
        (query_failed_isObjectWith num))
      ⟨⟨hconnect, endpoint, hendpoint⟩, what, hreply⟩
  · refine iff_of_false ?_ fun ⟨_, what, herror⟩ => by simp [hreply] at herror
    rintro ⟨s, hs, _⟩
    by_cases hprint : Printable mode resp
    · rw [query_printed hconnect hendpoint hreply hprint] at hs
      cases hs
    · rw [query_unprinted hconnect hendpoint hreply hprint] at hs
      cases hs

/-- `Write` returns unless the peer goes away between the two `try` blocks, or printing
    the response stops the process. -/
theorem write_returns_iff (mode : Assertions) (db : InfluxDB) (data : Bytes) :
    (db.Write mode data ex).outcome = .returned () ↔
      (∃ what, ex.connect = .error what) ∨
        (ex.Connected ∧ ∀ resp, ex.reply = .ok resp → Printable mode resp) := by
  have hquiet := InfluxDB.Write.quiet mode db data
  rcases ex.cases with ⟨what, hconnect⟩ | ⟨hconnect, what, hendpoint⟩ |
    ⟨hconnect, endpoint, what, hendpoint, hreply⟩ | ⟨hconnect, endpoint, resp, hendpoint, hreply⟩
  · exact iff_of_true (Client.run_unresolved hquiet hconnect) (.inl ⟨what, hconnect⟩)
  · refine iff_of_false ?_ ?_
    · rw [InfluxDB.Write, Client.run_unconnected hquiet hconnect hendpoint]
      intro hthrew
      cases hthrew
    · rintro (⟨what, herror⟩ | ⟨hconnected, -⟩)
      · simp [hconnect] at herror
      · exact hconnected.remote_endpoint_ne hendpoint
  · refine iff_of_true (Client.run_failed hquiet hconnect hendpoint hreply)
      (.inr ⟨⟨hconnect, endpoint, hendpoint⟩, ?_⟩)
    intro resp hresp
    rw [hreply] at hresp
    cases hresp
  · by_cases hprint : Printable mode resp
    · refine iff_of_true (write_printed hconnect hendpoint hreply hprint)
        (.inr ⟨⟨hconnect, endpoint, hendpoint⟩, ?_⟩)
      intro resp' hresp'
      obtain rfl := Except.ok.inj (hreply.symm.trans hresp')
      exact hprint
    · refine iff_of_false ?_ ?_
      · rw [write_unprinted hconnect hendpoint hreply hprint]
        intro hreturned
        cases hreturned
      · rintro (⟨what, herror⟩ | ⟨-, hprintable⟩)
        · simp [hconnect] at herror
        · exact hprint (hprintable resp hreply)

end

/-- Which outcomes of the exchange the three client operations are total over. -/
theorem client_operations_total_iff {ν : Type} (num : Bytes → ν) (mode : Assertions) (db : InfluxDB)
    (url host port query data : Bytes) (ex : Exchange) :
    (AnswersOrReports num ex (GetHttp url host port ex) ↔ ex.Connected) ∧
    (AnswersOrReports num ex (db.Query mode query ex) ↔ ex.Connected ∧ ∃ what, ex.reply = .error what) ∧
    ((db.Write mode data ex).outcome = .returned () ↔
      (∃ what, ex.connect = .error what) ∨
        (ex.Connected ∧ ∀ resp, ex.reply = .ok resp →
          mode = .enabled → resp.version = 10 ∨ resp.version = 11)) :=
  ⟨getHttp_answersOrReports_iff url host port, query_answersOrReports_iff mode db query,
    write_returns_iff mode db data⟩

/-- A host that cannot be resolved, an exchange without a fault, a peer that drops the
    connection early and a response of another version, each in the operation it trips. -/
theorem client_operations_not_total :
    ¬ AnswersOrReports (id : Bytes → Bytes)
        { Exchange.answering 80 {} with connect := .error (lit "Host not found") }
        (GetHttp (lit "/v1") (lit "consul") (lit "8500")
          { Exchange.answering 80 {} with connect := .error (lit "Host not found") }) ∧
      ¬ AnswersOrReports (id : Bytes → Bytes) (.answering 80 { version := 11, status := 200, body := lit "ok" })
        (InfluxDB.Query .enabled ⟨lit "db", lit "8086", lit "app"⟩ (lit "q")
          (.answering 80 { version := 11, status := 200, body := lit "ok" })) ∧
      (InfluxDB.Write .enabled ⟨lit "db", lit "8086", lit "app"⟩ (lit "d")
        { Exchange.answering 80 {} with
          remote_endpoint := .error (lit "Transport endpoint is not connected") }).outcome ≠ .returned () ∧
      (InfluxDB.Write .enabled ⟨lit "db", lit "8086", lit "app"⟩ (lit "d")
        (.answering 80 { version := 12, status := 204 })).outcome ≠ .returned () := by
  refine ⟨?_, ?_, ?_, ?_⟩
  · rw [getHttp_answersOrReports_iff]
    exact fun h => h.connect_ne rfl
  · rw [query_answersOrReports_iff]
    rintro ⟨_, what, herror⟩
    cases herror
  · rw [Ne, write_returns_iff]
    rintro (⟨what, herror⟩ | ⟨hconnected, -⟩)
    · cases herror
    · exact hconnected.remote_endpoint_ne rfl
  · rw [Ne, write_returns_iff]
    rintro (⟨what, herror⟩ | ⟨-, hprintable⟩)
    · cases herror
    · exact absurd (hprintable _ rfl rfl) (by decide)

end taraxacum.http
