import Taraxacum.Cxx

open json exec

namespace taraxacum.rapidjson

structure ParseError where
  GetErrorOffset : Nat
  GetParseError : Nat

/-- The parts of RapidJSON the code calls. Each parser takes the octets it is
    shown: `Parse` a string without NUL, `ParseStream` the contents of a file. `Accept`
    gives the writer's result flag and what it has put in the buffer. -/
structure Rapidjson (ν : Type) where
  Parse : Bytes → Except ParseError (Value ν)
  ParseStopWhenDone : Bytes → Except ParseError (Value ν)
  ParseStream : Bytes → Except ParseError (Value ν)
  GetParseError_En : Nat → Bytes
  Accept : Value ν → Bool × Bytes

section
variable {ν ε χ : Type} (mode : Assertions)

/-- A call outside its precondition whose result RapidJSON does not define. -/
def violation {α : Type} : Exec ε χ α := do
  assert mode false
  Exec.undefinedBehaviour

def IsArray : Value ν → Bool
  | .array _ => true
  | _ => false

/-- Needs an object; without assertions a Null has no members. -/
def HasMember (v : Value ν) (name : Bytes) : Exec ε χ Bool :=
  match v with
  | .object members => pure (members.lookup name).isSome
  | .null => do
    assert mode false
    return false
  | _ => violation mode

/-- `operator[](name)`: needs an object that has the member. -/
def member (v : Value ν) (name : Bytes) : Exec ε χ (Value ν) :=
  match v with
  | .object members =>
    match members.lookup name with
    | some v => pure v
    | none => do
      assert mode false
      return .null
  | _ => violation mode

/-- `operator[](i)`: needs an array longer than `i`. -/
def element (v : Value ν) (i : Nat) : Exec ε χ (Value ν) :=
  match v with
  | .array elements =>
    match elements[i]? with
    | some v => pure v
    | none => violation mode
  | _ => violation mode

/-- Needs a string. What it points to is the whole string; how much of it is
    used is up to the caller. -/
def GetString (v : Value ν) : Exec ε χ Bytes :=
  match v with
  | .string s => pure s
  | _ => violation mode

end

/-- The error text made by hand after a parse error. -/
def parseErrorText {ν : Type} (rj : Rapidjson ν) (e : ParseError) : Bytes :=
  lit "\x7b\"errcode:\"" ++ decimal (UInt32.ofNat e.GetErrorOffset).toNat ++ lit ", \"errmsg\":" ++
    rj.GetParseError_En e.GetParseError ++ lit "\x7d"

/-- A `Document` after a parse: Null when there was an error. -/
def document {ν : Type} : Except ParseError (Value ν) → Value ν
  | .ok v => v
  | .error _ => .null

/-- A `Document` that is not Null comes from a parse without an error. -/
theorem eq_ok_of_document {ν : Type} {parsed : Except ParseError (Value ν)} {v : Value ν}
    (hnull : v ≠ .null) (h : document parsed = v) : parsed = .ok v := by
  cases parsed with
  | error e => exact absurd h.symm hnull
  | ok w => exact congrArg Except.ok h

section
variable {ν ε χ : Type} {mode : Assertions}

/- Inside their preconditions the accessors are plain lookups. -/

/-- On an object `HasMember` looks the name up, in either mode. -/
theorem HasMember_of_lookup {members : List (Bytes × Value ν)} {name : Bytes} {found : Option (Value ν)}
    (hfound : members.lookup name = found) :
    (HasMember mode (.object members) name : Exec ε χ Bool) = pure found.isSome := by
  rw [HasMember, hfound]

/-- The member that is there is returned, in either mode. -/
theorem member_of_lookup {members : List (Bytes × Value ν)} {name : Bytes} {v : Value ν}
    (hfound : members.lookup name = some v) :
    (member mode (.object members) name : Exec ε χ (Value ν)) = pure v := by
  simp only [member, hfound]

/-- An element that is there is returned, in either mode. -/
theorem element_of_getElem? {elements : List (Value ν)} {i : Nat} {v : Value ν} (hget : elements[i]? = some v) :
    (element mode (.array elements) i : Exec ε χ (Value ν)) = pure v := by
  simp only [element, hget]

/-- Asking anything but an object for a member fails an assertion. -/
theorem HasMember_of_not_object {v : Value ν} {name : Bytes} (hobject : ∀ members, v ≠ .object members) :
    (HasMember .enabled v name : Exec ε χ Bool) = Exec.abort := by
  cases v with
  | object members => exact absurd rfl (hobject members)
  | null | bool | number | string | array => rfl

/-- A violated precondition never returns: it aborts, or anything may happen. -/
@[simp] theorem violation_not_returned {α : Type} (a : α) :
    ¬ (violation mode : Exec ε χ α).outcome = .returned a := by
  cases mode <;> simp [violation, assert]

/-- An element is returned of an array that has it, and in no other case. -/
theorem element_returned_iff {v w : Value ν} {i : Nat} :
    (element mode v i : Exec ε χ (Value ν)).outcome = .returned w ↔
      ∃ elements, v = .array elements ∧ elements[i]? = some w := by
  cases v with
  | array elements =>
    cases hget : elements[i]? <;> simp [element, hget]
  | _ => simp [element]

/-- With assertions in, a member is returned of an object that has it, and in no other case. -/
theorem member_returned_iff {v w : Value ν} {name : Bytes} :
    (member .enabled v name : Exec ε χ (Value ν)).outcome = .returned w ↔
      ∃ members, v = .object members ∧ members.lookup name = some w := by
  cases v with
  | object members =>
    cases hfind : members.lookup name <;> simp [member, hfind, assert]
  | _ => simp [member]

/-- With assertions in, `HasMember` answers for objects only. -/
theorem HasMember_returned_iff {v : Value ν} {name : Bytes} {b : Bool} :
    (HasMember .enabled v name : Exec ε χ Bool).outcome = .returned b ↔
      ∃ members, v = .object members ∧ (members.lookup name).isSome = b := by
  cases v <;> simp [HasMember, assert]

/-- The string is returned of strings only. -/
theorem GetString_returned_iff {v : Value ν} {s : Bytes} :
    (GetString mode v : Exec ε χ Bytes).outcome = .returned s ↔ v = .string s := by
  cases v <;> simp [GetString]

/- With assertions in, an accessor outside its precondition stops the process. -/

/-- A failed assertion is the one way in which `assert` does not return. -/
theorem assert_returnsOrAborts (condition : Bool) :
    (assert .enabled condition : Exec ε χ Unit).ReturnsOrAborts := by
  cases condition <;> simp [assert, Exec.ReturnsOrAborts]

/-- With assertions in, a violated precondition is a failed assertion. -/
theorem violation_returnsOrAborts {α : Type} : (violation .enabled : Exec ε χ α).ReturnsOrAborts := .inl rfl

/-- With assertions in, no use of `HasMember` is undefined. -/
theorem HasMember_returnsOrAborts (v : Value ν) (name : Bytes) :
    (HasMember .enabled v name : Exec ε χ Bool).ReturnsOrAborts := by
  cases v with
  | object members => exact .of_returned rfl
  | null => exact .inl rfl
  | _ => exact violation_returnsOrAborts

theorem member_returnsOrAborts (v : Value ν) (name : Bytes) :
    (member .enabled v name : Exec ε χ (Value ν)).ReturnsOrAborts := by
  cases v with
  | object members =>
    cases hfind : members.lookup name <;> simp [member, hfind, assert, Exec.ReturnsOrAborts]
  | _ => exact violation_returnsOrAborts

theorem element_returnsOrAborts (v : Value ν) (i : Nat) :
    (element .enabled v i : Exec ε χ (Value ν)).ReturnsOrAborts := by
  cases v with
  | array elements =>
    rw [element]
    cases elements[i]? with
    | none => exact violation_returnsOrAborts
    | some v => exact .of_returned rfl
  | _ => exact violation_returnsOrAborts

theorem GetString_returnsOrAborts (v : Value ν) :
    (GetString .enabled v : Exec ε χ Bytes).ReturnsOrAborts := by
  cases v with
  | string s => exact .of_returned rfl
  | _ => exact violation_returnsOrAborts

/- No accessor does anything to the world. -/

/-- An assertion does nothing that is seen from outside. -/
theorem assert_events (condition : Bool) : (assert mode condition : Exec ε χ Unit).events = [] := by
  cases condition <;> cases mode <;> rfl

/-- A violated precondition has done nothing yet that is seen. -/
theorem violation_events {α : Type} : (violation mode : Exec ε χ α).events = [] := by
  cases mode <;> rfl

/-- `HasMember` only looks. -/
theorem HasMember_events (v : Value ν) (name : Bytes) :
    (HasMember mode v name : Exec ε χ Bool).events = [] := by
  cases v with
  | object members => rfl
  | null => cases mode <;> rfl
  | _ => exact violation_events

theorem member_events (v : Value ν) (name : Bytes) :
    (member mode v name : Exec ε χ (Value ν)).events = [] := by
  cases v with
  | object members =>
    rw [member]
    cases members.lookup name with
    | none => cases mode <;> rfl
    | some v => rfl
  | _ => exact violation_events

theorem element_events (v : Value ν) (i : Nat) : (element mode v i : Exec ε χ (Value ν)).events = [] := by
  cases v with
  | array elements =>
    rw [element]
    cases elements[i]? with
    | none => exact violation_events
    | some v => rfl
  | _ => exact violation_events

theorem GetString_events (v : Value ν) : (GetString mode v : Exec ε χ Bytes).events = [] := by
  cases v with
  | string s => rfl
  | _ => exact violation_events

end

end taraxacum.rapidjson
