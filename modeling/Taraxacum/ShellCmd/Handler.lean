import Taraxacum.Event
import Taraxacum.Rapidjson

open json exec
open taraxacum.rapidjson

namespace taraxacum.ShellCmd

/-- What the two `getline` loops have put into `ssout` and `sserr`. -/
structure Captured where
  ssout : Bytes
  sserr : Bytes

/-- The response made of them. -/
def jresp (c : Captured) : Bytes :=
  lit "\x7b \"cmd\":" ++ lit "\" " ++ c.ssout ++ lit "\"" ++
    lit ", \"err\":" ++ lit "\"" ++ c.sserr ++ lit "\"\x7d"

def noCmd : Bytes :=
  lit "\x7b\"errcode:\"" ++ lit "001" ++
    lit ", \"errmsg\":" ++ lit "config.json does not have cmd key" ++ lit "\x7d"

def noFile : List Bytes :=
  [lit "Exception opening/reading configuration file\n", lit "Is config.json created ?\n",
    lit "config.json should have a key named cmd :\n", lit "\x7b:cmd \"<your shell commands>\" ,... \"\x7d\"\n"]

def send (body : Bytes) : Call Unit := Exec.emit (.send body)

end ShellCmd

open ShellCmd

section
variable {ν : Type} (rj : Rapidjson ν) (mode : Assertions)

/-- The branch for a parse error, which does not return: the text it leaves in `ss`. -/
def ShellCmd.reportParse (parsed : Except ParseError (Value ν)) : Call Bytes :=
  match parsed with
  | .error e => do
    let ss := parseErrorText rj e
    send ss
    Exec.emit .fclose
    return ss
  | .ok _ => return []

/-- The handler on a file system, up to the loops over what its command writes: the
    command it starts, or nothing where it has come to its end without one. -/
def ShellCmd (files : Bytes → Except Bytes Bytes) : Call (Option Bytes) := do
  Exec.emit (.fopen (lit "./config.json"))
  match files (lit "./config.json") with
  | .error strerror => do
    noFile.forM cout
    Exec.raise (.runtime_error strerror)
  | .ok contents => do
    Exec.emit .fread
    let parsed := rj.ParseStream contents
    let ss ← ShellCmd.reportParse rj parsed
    let d := document parsed
    if ← HasMember mode d (lit "cmd") then
      let s ← member mode d (lit "cmd")
      let command := cstr (← GetString mode s)
      Exec.emit (.spawn command)
      return some command
    else
      Exec.emit .fclose
      send (ss ++ noCmd)
      return none

/-- The handler after its loops. -/
def ShellCmd.respond (captured : Captured) : Call Unit := do
  Exec.emit .fclose
  send (jresp captured)

end

end taraxacum
