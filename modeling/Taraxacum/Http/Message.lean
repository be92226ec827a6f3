import Taraxacum.Cxx

open json exec

namespace taraxacum.http

def tolower (c : UInt8) : UInt8 := if 0x41 ≤ c ∧ c ≤ 0x5A then c + 0x20 else c

def ci_equal (a b : Bytes) : Bool := a.map tolower == b.map tolower

def is_ows (c : UInt8) : Bool := c == 0x20 || c == 0x09

def trim (s : Bytes) : Bytes := ((s.dropWhile is_ows).reverse.dropWhile is_ows).reverse

def is_tchar (c : UInt8) : Bool :=
  (0x30 ≤ c && c ≤ 0x39) || (0x41 ≤ c && c ≤ 0x5A) || (0x61 ≤ c && c ≤ 0x7A) ||
    (lit "!#$%&'*+-.^_`|~").contains c

/-- `token_list::const_iterator::increment`: the next token and what follows it,
    or the end, which a malformed list reaches early. -/
def token_list.increment : Bool → Bytes → Option (Bytes × Bytes)
  | _, [] => none
  | need_comma, c :: s =>
    if is_ows c then increment need_comma s
    else if is_tchar c then
      if need_comma then none else some ((c :: s).takeWhile is_tchar, (c :: s).dropWhile is_tchar)
    else if c != 0x2C then none
    else increment false s

def token_list.tokens : Nat → Bool → Bytes → List Bytes
  | 0, _, _ => []
  | fuel + 1, need_comma, s =>
    match increment need_comma s with
    | some (token, s) => token :: tokens fuel true s
    | none => []

def token_list.exists_ (s token : Bytes) : Bool :=
  (token_list.tokens (s.length + 1) false s).any (ci_equal token)

/-- Header fields in the order they were inserted. -/
abbrev Fields := List (Bytes × Bytes)

namespace Fields

def exists_ (fields : Fields) (name : Bytes) : Bool := fields.any fun field => ci_equal name field.1

/-- `operator[]`: the empty string for a field that is absent. -/
def get (fields : Fields) (name : Bytes) : Bytes :=
  match fields.find? fun field => ci_equal name field.1 with
  | some field => field.2
  | none => []

def erase (fields : Fields) (name : Bytes) : Fields := fields.filter fun field => !ci_equal name field.1

def insert (fields : Fields) (name value : Bytes) : Fields := fields ++ [(name, trim value)]

def replace (fields : Fields) (name value : Bytes) : Fields := (fields.erase name).insert name (trim value)

/-- A field that is inserted is found by its own name, and all others as before. -/
@[simp] theorem exists_insert (fields : Fields) (name value n : Bytes) :
    (fields.insert name value).exists_ n = (fields.exists_ n || ci_equal n name) := by
  simp [exists_, insert]

/-- Erasing a field makes no other name appear. -/
theorem exists_erase (fields : Fields) (name n : Bytes) (h : fields.exists_ n = false) :
    (fields.erase name).exists_ n = false := by
  simp only [exists_, erase, List.any_eq_false, List.mem_filter] at h ⊢
  exact fun field hfield => h field hfield.1

/-- A field that is absent reads as the empty string. -/
theorem get_eq_nil (fields : Fields) (name : Bytes) (h : fields.exists_ name = false) :
    fields.get name = [] := by
  simp only [exists_, List.any_eq_false] at h
  rw [get, List.find?_eq_none.mpr h]

/-- The fields `prepare` looks after itself. -/
def reserved : List Bytes := [lit "Connection", lit "Content-Length", lit "Transfer-Encoding"]

/-- No field that `prepare` looks after is there yet. -/
def Unreserved (fields : Fields) : Prop := ∀ n ∈ reserved, fields.exists_ n = false

theorem unreserved_nil : Unreserved [] := fun _ _ => rfl

/-- A field that `prepare` does not look after may be inserted. -/
theorem Unreserved.insert {fields : Fields} (h : fields.Unreserved) {name : Bytes}
    (hname : ∀ n ∈ reserved, ci_equal n name = false) (value : Bytes) :
    (fields.insert name value).Unreserved := by
  intro n hn
  rw [exists_insert, h n hn, hname n hn, Bool.or_self]

theorem Unreserved.replace {fields : Fields} (h : fields.Unreserved) {name : Bytes}
    (hname : ∀ n ∈ reserved, ci_equal n name = false) (value : Bytes) :
    (fields.replace name value).Unreserved := by
  refine Unreserved.insert ?_ hname (trim value)
  exact fun n hn => exists_erase fields name n (h n hn)

end Fields

structure Request where
  method : Bytes := []
  url : Bytes := []
  version : Nat := 0
  fields : Fields := []
  body : Bytes := []
  deriving DecidableEq

/-- A message: the method and the target are a request's, the status and the reason a response's. -/
structure Message where
  version : Nat := 0
  method : Bytes := []
  url : Bytes := []
  status : Nat := 0
  reason : Bytes := []
  fields : Fields := []
  body : Bytes := []
  deriving DecidableEq

/-- The exceptions of `message.ipp` name the line they are thrown from. -/
def make_exception (reason : Bytes) (line : Nat) : Exception :=
  .invalid_argument (reason ++ lit " (message.ipp:" ++ decimal line ++ lit ")")

/-- `prepare` with no options on a request whose body knows its length. -/
def prepare {ε : Type} (content_length : Option Nat) (msg : Request) : Exec ε Exception Request := do
  if msg.fields.exists_ (lit "Connection") then
    Exec.raise (make_exception (lit "prepare called with Connection field set") 180)
  else if msg.fields.exists_ (lit "Content-Length") then
    Exec.raise (make_exception (lit "prepare called with Content-Length field set") 184)
  else if token_list.exists_ (msg.fields.get (lit "Transfer-Encoding")) (lit "chunked") then
    Exec.raise (make_exception (lit "prepare called with Transfer-Encoding: chunked set") 188)
  else
    let fields := match content_length with
      | some n =>
        if n > 0 || ci_equal msg.method (lit "POST") then
          msg.fields.insert (lit "Content-Length") (decimal n)
        else msg.fields
      | none =>
        if msg.version ≥ 11 then msg.fields.insert (lit "Transfer-Encoding") (lit "chunked")
        else msg.fields
    if msg.version < 11 && token_list.exists_ (fields.get (lit "Connection")) (lit "upgrade") then
      Exec.raise (make_exception (lit "invalid version for Connection: upgrade") 260)
    else return { msg with fields }

/-- A request of HTTP/1.1 that has none of the fields `prepare` looks after is
    prepared without an exception, and only its fields change. -/
theorem prepare_returns (ε : Type) (content_length : Option Nat) (msg : Request)
    (hversion : msg.version = 11) (hfields : msg.fields.Unreserved) :
    ∃ fields, (prepare content_length msg : Exec ε Exception Request) = pure { msg with fields } := by
  have hconnection := hfields (lit "Connection") (by decide)
  have hlength := hfields (lit "Content-Length") (by decide)
  have hencoding := hfields (lit "Transfer-Encoding") (by decide)
  have htokens : token_list.exists_ (msg.fields.get (lit "Transfer-Encoding")) (lit "chunked") = false := by
    rw [Fields.get_eq_nil _ _ hencoding]
    rfl
  simp only [prepare, hconnection, hlength, htokens, hversion, Bool.false_eq_true, if_false]
  exact ⟨_, rfl⟩

/-- A request that has none of the fields `prepare` looks after is prepared without an exception. -/
theorem prepare_outcome (ε : Type) (content_length : Option Nat) (msg : Request)
    (hversion : msg.version = 11) (hfields : msg.fields.Unreserved) :
    ∃ req, (prepare content_length msg : Exec ε Exception Request).outcome = .returned req := by
  obtain ⟨fields, hprepare⟩ := prepare_returns ε content_length msg hversion hfields
  exact ⟨_, congrArg Exec.outcome hprepare⟩

end taraxacum.http
