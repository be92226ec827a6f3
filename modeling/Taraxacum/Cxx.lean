import Mathlib.Data.List.TakeWhile
import Taraxacum.Exec
import Taraxacum.Json.Grammar

open json exec

namespace taraxacum

/-- Whether `assert` is compiled in, and `RAPIDJSON_ASSERT` and `BOOST_ASSERT` with it. -/
inductive Assertions where
  | enabled
  | disabled
  deriving DecidableEq

def assert {ε χ : Type} (mode : Assertions) (condition : Bool) : Exec ε χ Unit :=
  if condition then pure ()
  else match mode with
    | .enabled => Exec.abort
    | .disabled => pure ()

/-- A `std::string` made from a `const char*`: the octets up to the first NUL. -/
def cstr (s : Bytes) : Bytes := s.takeWhile (· != 0)

/-- A text without NUL is read to its end as a C string. -/
theorem cstr_of_not_mem {s : Bytes} (h : 0 ∉ s) : cstr s = s := by
  rw [cstr, List.takeWhile_eq_self_iff]
  intro b hb
  rw [bne_iff_ne]
  rintro rfl
  exact h hb

/-- A C string holds no NUL. -/
theorem not_mem_cstr (s : Bytes) : 0 ∉ cstr s := by
  intro h
  have hne := List.all_eq_true.mp List.all_takeWhile 0 h
  simp at hne

/-- Reading a C string again gives the same octets. -/
@[simp] theorem cstr_cstr (s : Bytes) : cstr (cstr s) = cstr s := cstr_of_not_mem (not_mem_cstr s)

/-- An unsigned number as `operator<<` and `lexical_cast` write it. -/
def decimal (n : Nat) : Bytes := lit (Nat.repr n)

/-- The codes of the ten digits, checked one by one. -/
private theorem isDigit_ofNat : ∀ n < 58, 48 ≤ n → isDigit (UInt8.ofNat n) = true := by decide

/-- A number is printed with at least one digit. -/
theorem decimal_eq_cons (n : Nat) : ∃ d ds, decimal n = d :: ds ∧ isDigit d = true := by
  have hdigits : decimal n = (Nat.toDigits 10 n).map fun c => UInt8.ofNat c.toNat := by
    rw [decimal, lit, Nat.toList_repr]
  obtain ⟨c, cs, hcs⟩ := List.exists_cons_of_ne_nil (@Nat.toDigits_ne_nil n 10)
  have hmem : c ∈ Nat.toDigits 10 n := by
    rw [hcs]
    exact List.mem_cons_self ..
  have hdigit : c.isDigit = true := Nat.isDigit_of_mem_toDigits (by decide) (by decide) hmem
  have hrange : 48 ≤ c.toNat ∧ c.toNat ≤ 57 := by
    simpa [Char.isDigit, UInt32.le_iff_toNat_le] using hdigit
  refine ⟨UInt8.ofNat c.toNat, cs.map fun c => UInt8.ofNat c.toNat, ?_, ?_⟩
  · rw [hdigits, hcs, List.map_cons]
  · exact isDigit_ofNat _ (by omega) hrange.1

/-- The exceptions the modelled code can meet. `boost::system::system_error` derives
    from `std::runtime_error`, `std::invalid_argument` does not. -/
inductive Exception where
  | runtime_error (what : Bytes)
  | system_error (what : Bytes)
  | invalid_argument (what : Bytes)
  deriving DecidableEq

def Exception.what : Exception → Bytes
  | .runtime_error what | .system_error what | .invalid_argument what => what

def Exception.isRuntimeError : Exception → Bool
  | .runtime_error _ | .system_error _ => true
  | .invalid_argument _ => false

/-- A `try` block whose one handler is `catch (std::runtime_error &)`. -/
def catchRuntimeError {ε α : Type} (body : Exec ε Exception α) (handler : Exception → Exec ε Exception α) :
    Exec ε Exception α := do
  match ← Exec.attempt body with
  | .ok a => pure a
  | .error e => if e.isRuntimeError then handler e else Exec.raise e

end taraxacum
