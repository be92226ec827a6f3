import Taraxacum.Config
import Taraxacum.InfluxDB
import Taraxacum.Rapidjson.Reference
import Taraxacum.ServiceDiscovery.Consuld

open json exec
open taraxacum.rapidjson

namespace taraxacum

section
variable {ν : Type} (rj : Rapidjson ν)

/-- The file holds an object, and under the key an array that begins with these strings. -/
def FirstStrings (contents key : Bytes) (fields : Bytes × Bytes × Bytes) : Prop :=
  ∃ members elements, rj.ParseStream contents = .ok (.object members) ∧
    members.lookup key = some (.array elements) ∧ elements[0]? = some (.string fields.1) ∧
    elements[1]? = some (.string fields.2.1) ∧ elements[2]? = some (.string fields.2.2)

/-- The file holds an object without the key. -/
def LacksKey (contents key : Bytes) : Prop :=
  ∃ members, rj.ParseStream contents = .ok (.object members) ∧ members.lookup key = none

/-- What loading a configuration owes, whatever the file holds: no accessor outside its
    precondition, which is where it would abort with assertions in, one `fclose`, and
    fields that are the strings under the key or still empty. What it throws leaves a
    constructor, and no object with it. -/
structure LoadsWhole {α : Type} (load : Assertions → Call α) (fields : α → Bytes × Bytes × Bytes)
    (contents key : Bytes) (mode : Assertions) : Prop where
  inside : (load .enabled).outcome ≠ .aborted
  closes : (load mode).events.count .fclose = 1
  leaves : (∃ e, (load mode).outcome = .threw e) ∨ ∃ loaded, (load mode).outcome = .returned loaded ∧
    (fields loaded = ([], [], []) ∨ FirstStrings rj contents key (fields loaded))

end

namespace Section

section
variable {ν : Type} {rj : Rapidjson ν} {mode : Assertions} {self : Section} {env : Environment}
    {contents : Bytes}

/-- Text that does not parse, or that is no object: the error branch does not return, and
    asking for the key aborts. -/
theorem Loadconfig_of_not_object (hfile : env.files (path env) = .ok contents)
    (hobject : ∀ members, document (rj.ParseStream contents) ≠ .object members) :
    (self.Loadconfig rj .enabled env).outcome = .aborted := by
  rw [Loadconfig, opening_bind, Exec.bind_outcome_of_returned rfl, hfile]
  cases hparse : rj.ParseStream contents <;> rw [hparse] at hobject <;>
    simp only [hparse, Exec.emit_bind_outcome, cout, HasMember_of_not_object hobject, Exec.abort_bind,
      Exec.abort_outcome]

/-- An object without the key: the file is closed and the fields stay empty. -/
theorem Loadconfig_of_no_key {members : List (Bytes × Value ν)} (hfile : env.files (path env) = .ok contents)
    (hparse : rj.ParseStream contents = .ok (.object members)) (hkey : members.lookup self.key = none) :
    self.Loadconfig rj mode env =
      ⟨self.opening env ++ .fread :: .fclose :: self.usage.map .cout, .returned ([], [], [])⟩ := by
  have husage : (do self.usage.forM cout; return ([], [], []) : Call (Bytes × Bytes × Bytes)) =
      ⟨self.usage.map .cout, .returned ([], [], [])⟩ := by
    rw [forM_cout]
    exact Exec.ext (Exec.bind_pure_events _ _) rfl
  rw [Loadconfig, opening_bind, hfile]
  simp only [hparse, document, pure_bind, HasMember_of_lookup hkey, Option.isSome_none, Bool.false_eq_true,
    if_false, husage]
  rfl

/-- Reading a field of the section touches no file. -/
theorem field_events (v : Value ν) (i : Nat) : (field mode v i).events = [] := by
  have hfield : (field mode v i).Emits fun _ => False := by
    refine .bind (.of_events_eq_nil (element_events _ _)) fun element _ => ?_
    refine .bind (.of_events_eq_nil (GetString_events _)) fun s _ => ?_
    exact .pure _
  exact List.eq_nil_iff_forall_not_mem.mpr hfield

/-- Nothing is closed while the file is opened and read. -/
theorem fclose_not_mem_opening (self : Section) (env : Environment) :
    ∀ e ∈ self.opening env, e ≠ .fclose := by
  rintro e hmem rfl
  cases hCONFIG : env.CONFIG <;> simp [opening, hCONFIG] at hmem

/-- An object with the key: nothing closes the file, whatever is under the key. -/
theorem Loadconfig_of_key {members : List (Bytes × Value ν)} {v : Value ν}
    (hfile : env.files (path env) = .ok contents)
    (hparse : rj.ParseStream contents = .ok (.object members)) (hkey : members.lookup self.key = some v) :
    (self.Loadconfig rj mode env).Emits (· ≠ .fclose) := by
  have hfields : (do
      assert mode (IsArray v)
      let first ← field mode v 0
      let second ← field mode v 1
      let third ← field mode v 2
      return (first, second, third) : Call (Bytes × Bytes × Bytes)).Emits (· ≠ .fclose) := by
    refine .bind (.of_events_eq_nil (assert_events _)) fun _ _ => ?_
    refine .bind (.of_events_eq_nil (field_events _ _)) fun first _ => ?_
    refine .bind (.of_events_eq_nil (field_events _ _)) fun second _ => ?_
    refine .bind (.of_events_eq_nil (field_events _ _)) fun third _ => ?_
    exact .pure _
  rw [Loadconfig, opening_bind, hfile]
  simp only [hparse, document, pure_bind, HasMember_of_lookup hkey, member_of_lookup hkey, Option.isSome_some,
    if_true]
  refine .bind (fclose_not_mem_opening self env) fun _ _ => ?_
  exact .bind (.emit Event.noConfusion) fun _ _ => hfields

/-- Only the branch for a missing key closes the file, and throws a `std::runtime_error` after it.
    -/
theorem loadsWhole_of_lacksKey (hfile : env.files (path env) = .ok contents)
    (hlacks : LacksKey rj contents self.key) :
    LoadsWhole rj (fun mode => self.Loadconfig rj mode env) id contents self.key mode := by
  obtain ⟨members, hparse, hkey⟩ := hlacks
  refine ⟨?_, ?_, ?_⟩
  · rw [Loadconfig_of_no_key hfile hparse hkey]
    exact nofun
  · have hopening : (self.opening env).count .fclose = 0 :=
      List.count_eq_zero.mpr fun hmem => fclose_not_mem_opening self env _ hmem rfl
    have husage : (self.usage.map Event.cout).count .fclose = 0 := by
      rw [List.count_eq_zero]
      simp
    rw [Loadconfig_of_no_key hfile hparse hkey, List.count_append, hopening,
      List.count_cons_of_ne (show Event.fread ≠ .fclose from nofun), List.count_cons_self, husage]
  · rw [Loadconfig_of_no_key hfile hparse hkey]
    exact .inr ⟨_, rfl, .inl rfl⟩

/-- The file is closed once only when the key is not there: with it nothing closes the
    file, and without an object the run aborts. -/
theorem lacksKey_of_loadsWhole (hfile : env.files (path env) = .ok contents)
    (h : LoadsWhole rj (fun mode => self.Loadconfig rj mode env) id contents self.key mode) :
    LacksKey rj contents self.key := by
  by_cases hobject : ∃ members, document (rj.ParseStream contents) = .object members
  · obtain ⟨members, hdocument⟩ := hobject
    have hparse : rj.ParseStream contents = .ok (.object members) := eq_ok_of_document nofun hdocument
    cases hkey : members.lookup self.key with
    | none => exact ⟨members, hparse, hkey⟩
    | some v =>
      have hcloses : (self.Loadconfig rj mode env).events.count .fclose = 1 := h.closes
      have hopen : (self.Loadconfig rj mode env).Emits (· ≠ .fclose) := Loadconfig_of_key hfile hparse hkey
      rw [List.count_eq_zero.mpr fun hmem => hopen _ hmem rfl] at hcloses
      cases hcloses
  · have haborted := @Loadconfig_of_not_object _ rj self env _ hfile (not_exists.mp hobject)
    exact absurd haborted h.inside

/-- A file that could be opened is loaded whole exactly if its object lacks the key. -/
theorem loadsWhole_iff (hfile : env.files (path env) = .ok contents) :
    LoadsWhole rj (fun mode => self.Loadconfig rj mode env) id contents self.key mode ↔
      LacksKey rj contents self.key :=
  ⟨lacksKey_of_loadsWhole hfile, loadsWhole_of_lacksKey hfile⟩

end

end Section

section
variable {ν : Type} {rj : Rapidjson ν} {mode : Assertions} {contents key : Bytes}

/-- A constructor that puts the three fields into an object owes what the loading of them owes. -/
theorem loadsWhole_make_iff {α : Type} {load : Assertions → Call (Bytes × Bytes × Bytes)}
    {make : Bytes × Bytes × Bytes → α} {fields : α → Bytes × Bytes × Bytes}
    (hmake : ∀ loaded, fields (make loaded) = loaded) :
    LoadsWhole rj (fun mode => do let loaded ← load mode; return make loaded) fields contents key mode ↔
      LoadsWhole rj load id contents key mode := by
  constructor
  · rintro ⟨hinside, hcloses, hleaves⟩
    refine ⟨fun haborted => hinside (Exec.bind_outcome_of_aborted haborted _), ?_, ?_⟩
    · rwa [Exec.bind_pure_events] at hcloses
    · obtain ⟨e, hthrew⟩ | ⟨object, hreturned, hfields⟩ := hleaves
      · obtain hthrew | ⟨_, _, hthrew⟩ := Exec.bind_eq_threw_iff.mp hthrew
        · exact .inl ⟨e, hthrew⟩
        · cases hthrew
      · obtain ⟨loaded, hloaded, hobject⟩ := Exec.bind_eq_returned_iff.mp hreturned
        cases hobject
        rw [hmake] at hfields
        exact .inr ⟨loaded, hloaded, hfields⟩
  · rintro ⟨hinside, hcloses, hleaves⟩
    refine ⟨?_, ?_, ?_⟩
    · rw [Ne, Exec.bind_eq_aborted_iff]
      rintro (haborted | ⟨_, _, haborted⟩)
      · exact hinside haborted
      · cases haborted
    · rwa [Exec.bind_pure_events]
    · obtain ⟨e, hthrew⟩ | ⟨loaded, hloaded, hfields⟩ := hleaves
      · exact .inl ⟨e, Exec.bind_eq_threw_iff.mpr (.inl hthrew)⟩
      · refine .inr ⟨make loaded, Exec.bind_eq_returned_iff.mpr ⟨loaded, hloaded, rfl⟩, ?_⟩
        rwa [hmake]

end

def Consuld.fields (self : Consuld) : Bytes × Bytes × Bytes := (self.host, self.port, self.url)

def InfluxDB.fields (db : InfluxDB) : Bytes × Bytes × Bytes := (db.influx_host, db.influx_port, db.influx_db)

/-- Either class loads its configuration safely and whole exactly when the file holds an
    object without its key: it leaks the file when it finds the key, and aborts on a
    file that holds no object. -/
theorem loadconfigs_whole_iff {ν : Type} (rj : Rapidjson ν) (mode : Assertions) {env : Environment}
    {contents : Bytes} (hfile : env.files (Section.path env) = .ok contents) :
    (LoadsWhole rj (fun mode => Consuld.Loadconfig rj mode env) Consuld.fields contents (lit "Consuld") mode ↔
      LacksKey rj contents (lit "Consuld")) ∧
    (LoadsWhole rj (fun mode => InfluxDB.Loadconfig rj mode env) InfluxDB.fields contents (lit "Influx") mode ↔
      LacksKey rj contents (lit "Influx")) := by
  have hconsuld := @Section.loadsWhole_iff _ rj mode Consuld.settings env contents hfile
  have hinflux := @Section.loadsWhole_iff _ rj mode InfluxDB.settings env contents hfile
  constructor
  · exact (loadsWhole_make_iff fun _ => rfl).trans hconsuld
  · exact (loadsWhole_make_iff fun _ => rfl).trans hinflux

/-- A file for the other service, without either key. -/
def commanded : Bytes := encode id (.object [(lit "cmd", .string (lit "date"))])

example : commanded = lit "\x7b\"cmd\":\"date\"\x7d" := by
  decide

/-- Nothing is loaded from a file whose object has another member only, and it is closed. -/
theorem loadconfigs_whole_commanded :
    LoadsWhole reference (fun mode => Consuld.Loadconfig reference mode ⟨none, fun _ => .ok commanded⟩)
        Consuld.fields commanded (lit "Consuld") .enabled ∧
      LoadsWhole reference (fun mode => InfluxDB.Loadconfig reference mode ⟨none, fun _ => .ok commanded⟩)
        InfluxDB.fields commanded (lit "Influx") .enabled := by
  have hparse : reference.ParseStream commanded = .ok (.object [(lit "cmd", .string (lit "date"))]) :=
    reference_parsesTexts _ _ (denotes_encode (by simp [Value.All, allMembers]))
  have hwhole := @loadconfigs_whole_iff _ reference .enabled ⟨none, fun _ => .ok commanded⟩ _ rfl
  exact ⟨hwhole.1.mpr ⟨_, hparse, by decide⟩, hwhole.2.mpr ⟨_, hparse, by decide⟩⟩

/-- A file with the three strings that `Loadconfig` reads, where the usage text asks for four. -/
def configured : Bytes :=
  encode id (.object
    [(lit "Consuld", .array [.string (lit "consul"), .string (lit "8500"), .string (lit "/v1")])])

example : configured = lit "\x7b\"Consuld\":[\"consul\",\"8500\",\"/v1\"]\x7d" := by
  decide

/-- The three strings of such a file are loaded, and it stays open. -/
theorem loadconfigs_not_whole :
    ¬ ∀ (mode : Assertions) (env : Environment) (contents : Bytes),
      env.files (Section.path env) = .ok contents →
      LoadsWhole reference (fun mode => Consuld.Loadconfig reference mode env) Consuld.fields contents
          (lit "Consuld") mode ∧
        LoadsWhole reference (fun mode => InfluxDB.Loadconfig reference mode env) InfluxDB.fields contents
          (lit "Influx") mode := by
  intro h
  have hparse : reference.ParseStream configured = .ok (.object [(lit "Consuld",
      .array [.string (lit "consul"), .string (lit "8500"), .string (lit "/v1")])]) :=
    reference_parsesTexts _ _ (denotes_encode (by simp [Value.All, allElements, allMembers]))
  have hwhole := (h .enabled ⟨none, fun _ => .ok configured⟩ configured rfl).1
  have hload := (loadsWhole_make_iff fun _ => rfl).mp hwhole
  obtain ⟨members, hmembers, hkey⟩ := @Section.lacksKey_of_loadsWhole _ _ _ Consuld.settings _ _ rfl hload
  rw [hparse] at hmembers
  cases hmembers
  cases hkey

end taraxacum
