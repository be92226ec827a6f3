import Taraxacum.Rapidjson.Reference
import Taraxacum.ShellCmd.Invocation

open json exec
open taraxacum.rapidjson taraxacum.pstream transition

namespace taraxacum.ShellCmd

section
variable {C : Nat}

/-- The end of an invocation with one answer, and a file that was closed once and not
    touched after that. -/
structure AnswersOnce (i : Invocation C) : Prop where
  returned : i.place = .ended (.returned ())
  sends : i.events.countP Event.isSend = 1
  closes : ∃ before after, i.events = before ++ .fclose :: after ∧ .fclose ∉ before ∧
    ∀ e ∈ after, e.usesFile = false

/-- The end of an invocation that could not open its file: an exception and no answer. -/
structure Refuses (i : Invocation C) : Prop where
  threw : ∃ e, i.place = .ended (.threw e)
  sends : i.events.countP Event.isSend = 0

end

section
variable {ν : Type} (rj : Rapidjson ν) (mode : Assertions)

/-- What an invocation owes its caller, however its loops and the child interleave:
    without the file an exception and no answer; with it an end, one answer, one `fclose`
    and no accessor outside its precondition, which is where it would abort with
    assertions in. A pipe holds `C` octets. -/
def Serves (C : Nat) (files : Bytes → Except Bytes Bytes) (children : Bytes → List Action) : Prop :=
  match files (lit "./config.json") with
  | .error _ => RunsTo (Step children) Refuses (begin (ShellCmd rj mode files) : Invocation C)
  | .ok _ =>
    RunsTo (Step children) AnswersOnce (begin (ShellCmd rj mode files) : Invocation C) ∧
      (ShellCmd rj .enabled files).outcome ≠ .aborted

/-- The contents are an object, and its `cmd`, if it has one, is a string whose child writes no
    more to stderr than a pipe holds before it first closes a stream or exits. -/
def IsCommandObject (C : Nat) (children : Bytes → List Action) (contents : Bytes) : Prop :=
  ∃ members, rj.ParseStream contents = .ok (.object members) ∧
    ∀ v, members.lookup (lit "cmd") = some v →
      ∃ command, v = .string command ∧ (ahead (children (cstr command))).length ≤ C

end

section
variable {ν : Type} {rj : Rapidjson ν} {mode : Assertions} {files : Bytes → Except Bytes Bytes}

/-- The branch for a parse error goes on, with the text in `ss`. -/
theorem reportParse_outcome (parsed : Except ParseError (Value ν)) :
    ∃ ss, (reportParse rj parsed).outcome = .returned ss := by
  cases parsed with
  | error e => exact ⟨parseErrorText rj e, rfl⟩
  | ok => exact ⟨[], rfl⟩

/-- Without the file nothing is sent and the exception gets out. -/
theorem shellCmd_of_no_file {strerror : Bytes} (hfile : files (lit "./config.json") = .error strerror) :
    ShellCmd rj mode files =
      ⟨.fopen (lit "./config.json") :: noFile.map .cout, .threw (.runtime_error strerror)⟩ := by
  apply Exec.ext <;> simp [ShellCmd, hfile, noFile, cout]

/-- The branch of a command ends where its output is to be read. -/
theorem shellCmd_of_command {contents command : Bytes} {members : List (Bytes × Value ν)}
    (hfile : files (lit "./config.json") = .ok contents)
    (hparse : rj.ParseStream contents = .ok (.object members))
    (hcommand : members.lookup (lit "cmd") = some (.string command)) :
    ShellCmd rj mode files =
      ⟨[.fopen (lit "./config.json"), .fread, .spawn (cstr command)], .returned (some (cstr command))⟩ := by
  apply Exec.ext <;>
    simp [-bind_pure_comp, ShellCmd, hfile, hparse, reportParse, document, HasMember_of_lookup hcommand,
      member_of_lookup hcommand, GetString]

/-- An object without `cmd` is answered at once, with the file closed before. -/
theorem shellCmd_of_no_command {contents : Bytes} {members : List (Bytes × Value ν)}
    (hfile : files (lit "./config.json") = .ok contents)
    (hparse : rj.ParseStream contents = .ok (.object members)) (hnone : members.lookup (lit "cmd") = none) :
    ShellCmd rj mode files =
      ⟨[.fopen (lit "./config.json"), .fread, .fclose, .send noCmd], .returned none⟩ := by
  apply Exec.ext <;>
    simp [-bind_pure_comp, ShellCmd, hfile, hparse, reportParse, document, HasMember_of_lookup hnone, send]

section
variable {C : Nat} {children : Bytes → List Action}

/-- An invocation that is past its end by itself. -/
theorem runsTo_of_ended {P : Invocation C → Prop} {i : Invocation C} {outcome : Outcome Exception Unit}
    (hplace : i.place = .ended outcome) (hP : P i) : RunsTo (Step children) P i := by
  obtain ⟨events, place⟩ := i
  obtain rfl : place = .ended outcome := hplace
  exact runsTo_of_stuck (stuck_ended children events outcome) hP

/-- Without a file the handler throws, as it should. -/
theorem serves_of_no_file {strerror : Bytes} (hfile : files (lit "./config.json") = .error strerror) :
    Serves rj mode C files children := by
  simp only [Serves, hfile]
  rw [shellCmd_of_no_file hfile]
  exact runsTo_of_ended rfl ⟨⟨_, rfl⟩, by simp [begin, noFile, Event.isSend]⟩

/-- A response after the start of a command is the one answer. -/
theorem answersOnce_of_responded {command : Bytes} {i : Invocation C}
    (h : i.place = .ended (.returned ()) ∧
      Responded children [.fopen (lit "./config.json"), .fread, .spawn command] command i.events) :
    AnswersOnce i := by
  obtain ⟨hplace, ssout, -, hevents⟩ := h
  refine ⟨hplace, by rw [hevents]; rfl, ?_⟩
  refine ⟨[.fopen (lit "./config.json"), .fread, .spawn command], [.send (jresp ⟨ssout, []⟩)], hevents,
    ?_, ?_⟩ <;>
    simp [Event.usesFile]

/-- On a good file the invocation does what it owes, assertions in or not. -/
theorem serves_of_commandObject (hC : 1 ≤ C) {contents : Bytes}
    (hfile : files (lit "./config.json") = .ok contents)
    (hgood : IsCommandObject rj C children contents) : Serves rj mode C files children := by
  obtain ⟨members, hparse, hstring⟩ := hgood
  simp only [Serves, hfile]
  cases hfind : members.lookup (lit "cmd") with
  | none =>
    rw [shellCmd_of_no_command hfile hparse hfind, shellCmd_of_no_command hfile hparse hfind]
    refine ⟨runsTo_of_ended rfl ⟨rfl, rfl, [.fopen (lit "./config.json"), .fread], [.send noCmd], rfl, ?_, ?_⟩,
      nofun⟩ <;> simp [Event.usesFile]
  | some v =>
    obtain ⟨command, rfl, hle⟩ := hstring v hfind
    rw [shellCmd_of_command hfile hparse hfind, shellCmd_of_command hfile hparse hfind]
    exact ⟨(runsTo_response hC hle).mono fun _ => answersOnce_of_responded, nofun⟩

/-- With assertions in, an invocation that comes to its loops or back has read an object
    whose `cmd` is absent or a string. -/
theorem object_of_returned {contents : Bytes} (hfile : files (lit "./config.json") = .ok contents)
    {command : Option Bytes} (h : (ShellCmd rj .enabled files).outcome = .returned command) :
    ∃ members, rj.ParseStream contents = .ok (.object members) ∧
      ∀ v, members.lookup (lit "cmd") = some v → ∃ command, v = .string command := by
  rw [ShellCmd, Exec.emit_bind_outcome] at h
  simp only [hfile, Exec.emit_bind_outcome] at h
  obtain ⟨ss, hss⟩ := @reportParse_outcome _ rj (rj.ParseStream contents)
  rw [Exec.bind_outcome_of_returned hss] at h
  simp only [Exec.bind_eq_returned_iff, HasMember_returned_iff] at h
  obtain ⟨hasCmd, ⟨members, hobject, hmember⟩, h⟩ := h
  refine ⟨members, eq_ok_of_document nofun hobject, ?_⟩
  intro v hfind
  rw [hfind, Option.isSome_some] at hmember
  subst hmember
  simp only [if_true, Exec.bind_eq_returned_iff, member_returned_iff, GetString_returned_iff] at h
  obtain ⟨value, ⟨members', hobject', hfind'⟩, command, rfl, _⟩ := h
  obtain rfl : members = members' := Value.object.inj (hobject.symm.trans hobject')
  exact ⟨command, Option.some.inj (hfind.symm.trans hfind')⟩

/-- With assertions in, the handler comes to its command, to its end or to a failed assertion. -/
theorem shellCmd_returnsOrAborts {contents : Bytes} (hfile : files (lit "./config.json") = .ok contents) :
    (ShellCmd rj .enabled files).ReturnsOrAborts := by
  rw [ShellCmd]
  refine .bind (.of_returned rfl) fun _ => ?_
  simp only [hfile]
  refine .bind (.of_returned rfl) fun _ => ?_
  obtain ⟨ss, hss⟩ := @reportParse_outcome _ rj (rj.ParseStream contents)
  refine .bind (.of_returned hss) fun _ => ?_
  refine .bind (HasMember_returnsOrAborts _ _) fun hasCmd => ?_
  cases hasCmd with
  | false => exact .of_returned rfl
  | true =>
    refine .bind (member_returnsOrAborts _ _) fun s => ?_
    exact .bind (GetString_returnsOrAborts _) fun _ => .of_returned rfl

/-- A child that fills stderr before it first closes a stream keeps the invocation from its end. -/
theorem not_serves_of_ahead (hC : 1 ≤ C) {contents command : Bytes} {members : List (Bytes × Value ν)}
    (hfile : files (lit "./config.json") = .ok contents)
    (hparse : rj.ParseStream contents = .ok (.object members))
    (hcommand : members.lookup (lit "cmd") = some (.string command))
    (hlt : C < (ahead (children (cstr command))).length) : ¬ Serves rj mode C files children := by
  intro h
  simp only [Serves, hfile] at h
  rw [shellCmd_of_command hfile hparse hcommand] at h
  obtain ⟨s, hreach, hstuck⟩ :=
    @blocked_of_ahead C children [.fopen (lit "./config.json"), .fread, .spawn (cstr command)] _ hC hlt
  have hended : (Place.looping s : Place C) = .ended (.returned ()) :=
    ((h.1.of_reaches hreach).of_stuck hstuck).returned
  cases hended

/-- Every invocation does what it owes, assertions in or not, exactly when the file, if
    it can be opened, holds an object whose `cmd` is absent, or is a string whose child
    writes no more to stderr than a pipe holds before it first closes a stream or exits. -/
theorem serves_iff (hC : 1 ≤ C) (files : Bytes → Except Bytes Bytes) (children : Bytes → List Action) :
    Serves rj mode C files children ↔
      ∀ contents, files (lit "./config.json") = .ok contents → IsCommandObject rj C children contents := by
  constructor
  · intro h contents hfile
    have hends : ∃ command, (ShellCmd rj .enabled files).outcome = .returned command := by
      have hparts := h
      simp only [Serves, hfile] at hparts
      exact (shellCmd_returnsOrAborts hfile).resolve_left hparts.2
    obtain ⟨command, hreturned⟩ := hends
    obtain ⟨members, hparse, hstring⟩ := object_of_returned hfile hreturned
    refine ⟨members, hparse, fun v hfind => ?_⟩
    obtain ⟨command, rfl⟩ := hstring v hfind
    refine ⟨command, rfl, ?_⟩
    by_contra hlt
    exact not_serves_of_ahead hC hfile hparse hfind (Nat.lt_of_not_le hlt) h
  · intro h
    cases hfile : files (lit "./config.json") with
    | error strerror => exact serves_of_no_file hfile
    | ok contents => exact serves_of_commandObject hC hfile (h contents hfile)

end

/-- With assertions out, a file that does not parse is answered twice and closed twice;
    the second answer has the text of the first before its own. -/
theorem shellCmd_answers_twice {contents : Bytes} {e : ParseError}
    (hfile : files (lit "./config.json") = .ok contents) (hparse : rj.ParseStream contents = .error e) :
    ShellCmd rj .disabled files =
      ⟨[.fopen (lit "./config.json"), .fread, .send (parseErrorText rj e), .fclose, .fclose,
        .send (parseErrorText rj e ++ noCmd)], .returned none⟩ := by
  apply Exec.ext <;>
    simp [-bind_pure_comp, ShellCmd, hfile, hparse, reportParse, document, HasMember, assert, send]

end

/-- A command whose child fills stderr to the last octet and then writes two lines. -/
theorem serves_date :
    Serves reference .enabled 3 (fun _ => .ok (lit "\x7b\"cmd\":\"date\"\x7d"))
      (fun _ => [.write .rsrc_err (lit "err"), .write .rsrc_out (lit "Mon\nJan\n"), .exit]) := by
  have htext : encode id (.object [(lit "cmd", .string (lit "date"))]) =
    lit "\x7b\"cmd\":\"date\"\x7d" := by decide
  have hdenotes : Denotes id (lit "\x7b\"cmd\":\"date\"\x7d")
    (.object [(lit "cmd", .string (lit "date"))]) := by
    rw [← htext]
    exact denotes_encode (by simp [Value.All, allMembers])
  refine (serves_iff (by decide) _ _).mpr ?_
  rintro contents ⟨⟩
  refine ⟨_, reference_parsesTexts _ _ hdenotes, fun v hfind => ⟨lit "date", ?_, by decide⟩⟩
  exact (Option.some.inj hfind).symm

/-- A file that holds one letter. -/
theorem serves_not_always :
    ¬ ∀ (mode : Assertions) (C : Nat) (files : Bytes → Except Bytes Bytes) (children : Bytes → List Action),
      1 ≤ C → Serves reference mode C files children := by
  intro h
  have hparse : reference.ParseStream (lit "x") = .error ⟨0, 3⟩ := rfl
  have hserves := h .disabled 1 (fun _ => .ok (lit "x")) (fun _ => []) (Nat.le_refl 1)
  obtain ⟨members, hobject, -⟩ := (serves_iff (Nat.le_refl 1) _ _).mp hserves (lit "x") rfl
  rw [hparse] at hobject
  cases hobject

end taraxacum.ShellCmd
