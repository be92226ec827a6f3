import Taraxacum.Http.Message

open json exec

namespace taraxacum

/-- What the code does to the world outside it. -/
inductive Event where
  | cout (text : Bytes)
  | fopen (path : Bytes)
  | fread
  | fclose
  | connect (host port : Bytes)
  | write (request : http.Request)
  | read
  | spawn (command : Bytes)
  | send (body : Bytes)
  deriving DecidableEq

namespace Event

def isSend : Event → Bool
  | .send _ => true
  | _ => false

/-- The file is read or closed. -/
def usesFile : Event → Bool
  | .fread | .fclose => true
  | _ => false

/-- The request an event writes, if it writes one. -/
def request : Event → Option http.Request
  | .write request => some request
  | _ => none

end Event

/-- Code that acts on the world and may throw. -/
abbrev Call (α : Type) := Exec Event Exception α

/-- The requests a call writes, in order. -/
def requests {α : Type} (call : Call α) : List http.Request := call.events.filterMap Event.request

def cout (text : Bytes) : Call Unit := Exec.emit (.cout text)

/-- Printing is taken never to fail. -/
theorem cout_outcome (text : Bytes) : (cout text).outcome = .returned () := rfl

/-- Lines that are printed one by one are as many events, in order. -/
theorem forM_cout (texts : List Bytes) : texts.forM cout = ⟨texts.map .cout, .returned ()⟩ := by
  have hturn : ∀ text ∈ texts, Exec.Produces (fun e => [e]) (fun _ => True) (cout text) [.cout text] :=
    fun text _ => .emit trivial
  have hloop := Exec.Produces.forM hturn
  apply Exec.ext
  · rw [← List.flatMap_singleton' (texts.forM cout).events, hloop.view_eq, List.map_eq_flatMap]
  · exact hloop.returned

end taraxacum
