import Taraxacum.Http.Client
import Taraxacum.Rapidjson

open json exec
open taraxacum.rapidjson

namespace taraxacum

/-- Where a configuration comes from: the value of `CONFIG`, and for each path
    the contents of the file there or the error `fopen` sets. -/
structure Environment where
  CONFIG : Option Bytes
  files : Bytes → Except Bytes Bytes

/-- One `Loadconfig`: what it prints first, the key it looks for, and what it
    prints when the key is not there. -/
structure Section where
  loading : Bytes
  key : Bytes
  usage : List Bytes

namespace Section

def noFile : Bytes :=
  lit "Exception opening/reading configuration file\n" ++
    lit "Is config.json created ?\n" ++
    lit "config.json should have a key named Influx :\n" ++
    lit "\x7b \"\" ,... \"\x7d\"\n"

/-- `v[i].GetString()` assigned to a `std::string`. -/
def field {ν : Type} (mode : Assertions) (v : Value ν) (i : Nat) : Call Bytes := do
  let s ← GetString mode (← element mode v i)
  return cstr s

/-- The three fields after `Loadconfig`, all empty before it. -/
def Loadconfig {ν : Type} (rj : Rapidjson ν) (mode : Assertions) (self : Section) (env : Environment) :
    Call (Bytes × Bytes × Bytes) := do
  cout self.loading
  let path ← match env.CONFIG with
    | some env_p => do
      cout (lit "Your config.json PATH is: " ++ env_p ++ lit "\n")
      pure env_p
    | none => pure (lit "./config.json")
  Exec.emit (.fopen path)
  match env.files path with
  | .error strerror => do
    cout (noFile ++ lit "\n")
    Exec.raise (.runtime_error strerror)
  | .ok contents => do
    Exec.emit .fread
    let parsed := rj.ParseStream contents
    match parsed with
    | .error e => do
      cout (parseErrorText rj e ++ lit "\n")
      Exec.emit .fclose
    | .ok _ => pure ()
    let d := document parsed
    if ← HasMember mode d self.key then
      let array ← member mode d self.key
      assert mode (IsArray array)
      let first ← field mode array 0
      let second ← field mode array 1
      let third ← field mode array 2
      return (first, second, third)
    else
      Exec.emit .fclose
      self.usage.forM cout
      return ([], [], [])

/-- Where the configuration is looked for. -/
def path (env : Environment) : Bytes := env.CONFIG.getD (lit "./config.json")

/-- What is done up to the opening of the file, whichever it is. -/
def opening (self : Section) (env : Environment) : List Event :=
  .cout self.loading :: match env.CONFIG with
    | some env_p => [.cout (lit "Your config.json PATH is: " ++ env_p ++ lit "\n"), .fopen env_p]
    | none => [.fopen (lit "./config.json")]

/-- Whether `CONFIG` is set makes no difference to what follows but for the path. -/
theorem opening_bind {α : Type} (self : Section) (env : Environment) (rest : Bytes → Call α) :
    (do
      cout self.loading
      let path ← match env.CONFIG with
        | some env_p => do
          cout (lit "Your config.json PATH is: " ++ env_p ++ lit "\n")
          pure env_p
        | none => pure (lit "./config.json")
      Exec.emit (.fopen path)
      rest path) = (⟨self.opening env, .returned ()⟩ : Call Unit) >>= fun _ => rest (path env) := by
  unfold opening path
  cases env.CONFIG <;> rfl

section
variable {ν : Type} {rj : Rapidjson ν} {mode : Assertions}

/-- A field of the section that is a string is copied as a C string. -/
theorem field_of_string {elements : List (Value ν)} {i : Nat} {s : Bytes}
    (hget : elements[i]? = some (.string s)) : field mode (.array elements) i = pure (cstr s) := by
  simp only [field, element_of_getElem? hget, GetString, pure_bind]

/-- A configuration with an array under the key that begins with three strings. -/
theorem Loadconfig_of_strings {self : Section} {env : Environment} {contents first second third : Bytes}
    {members : List (Bytes × Value ν)} {elements : List (Value ν)}
    (hfile : env.files (path env) = .ok contents)
    (hparse : rj.ParseStream contents = .ok (.object members))
    (hkey : members.lookup self.key = some (.array elements)) (hfirst : elements[0]? = some (.string first))
    (hsecond : elements[1]? = some (.string second)) (hthird : elements[2]? = some (.string third)) :
    (self.Loadconfig rj mode env).outcome = .returned (cstr first, cstr second, cstr third) := by
  rw [Loadconfig, opening_bind, Exec.bind_outcome_of_returned rfl, hfile]
  simp only [hparse, document, Exec.emit_bind_outcome, pure_bind, HasMember_of_lookup hkey,
    member_of_lookup hkey, Option.isSome_some, assert, IsArray, field_of_string hfirst,
    field_of_string hsecond, field_of_string hthird, if_true, Exec.pure_outcome]

end

end Section

end taraxacum
