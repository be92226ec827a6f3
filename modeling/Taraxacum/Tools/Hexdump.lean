import Taraxacum.Cxx
import Taraxacum.Hex

open json exec

namespace taraxacum.Tools

def INT_MAX : Int := 2147483647
def INT_MIN : Int := -2147483648

/-- What a dump does: it adds `int`s, loads octets of the buffer and prints. -/
inductive Effect where
  | sum (value : Int)
  | load (index : Int)
  | printf (text : Bytes)
  deriving DecidableEq

/-- What an effect puts on the standard output. -/
def Effect.text : Effect → Bytes
  | .printf text => text
  | .sum _ | .load _ => []

abbrev Dump := Exec Effect Exception Unit

/-- The standard output of a dump. -/
def printed (dump : Dump) : Bytes := dump.events.flatMap Effect.text

def printf (text : Bytes) : Dump := Exec.emit (.printf text)

/-- `a + b` on `int`s, undefined when it overflows. -/
def add (a b : Int) : Exec Effect Exception Int := do
  Exec.emit (.sum (a + b))
  if INT_MIN ≤ a + b ∧ a + b ≤ INT_MAX then pure (a + b) else Exec.undefinedBehaviour

/-- `buf[index]`, undefined outside the buffer. -/
def load (buf : Bytes) (index : Int) : Exec Effect Exception UInt8 := do
  Exec.emit (.load index)
  if index < 0 then Exec.undefinedBehaviour
  else match buf[index.toNat]? with
    | some b => pure b
    | none => Exec.undefinedBehaviour

/-- `isprint` in the C locale. -/
def isprint (b : UInt8) : Bool := 0x20 ≤ b && b ≤ 0x7E

/-- The character of an octet in the last column. -/
def printable (b : UInt8) : UInt8 := if isprint b then b else 0x2E

/-- The argument of an unsigned conversion. -/
def unsigned (i : Int) : Nat := (i % 4294967296).toNat

/-- A turn of the first inner loop. -/
def slot (buf : Bytes) (buflen i : Int) (j : Nat) : Dump := do
  if (← add i j) < buflen then
    let b ← load buf (← add i j)
    printf (hex.padded 2 b.toNat ++ lit " ")
  else
    printf (lit "   ")

/-- A turn of the second inner loop. The octet is loaded for `isprint` and once more
    to be printed. -/
def shown (buf : Bytes) (buflen i : Int) (j : Nat) : Dump := do
  if (← add i j) < buflen then
    let b ← load buf (← add i j)
    if isprint b then
      let b ← load buf (← add i j)
      printf [b]
    else
      printf (lit ".")

/-- The body of the outer loop. -/
def row (buf : Bytes) (buflen i : Int) : Dump := do
  printf (hex.padded 6 (unsigned i) ++ lit ": ")
  (List.range 16).forM (slot buf buflen i)
  printf (lit " ")
  (List.range 16).forM (shown buf buflen i)
  printf (lit "\n")

/-- The outer loop from `i` on. -/
def rows (buf : Bytes) (buflen i : Int) : Dump :=
  if i < buflen then do
    row buf buflen i
    let _ ← add i 16
    rows buf buflen (i + 16)
  else
    pure ()
termination_by (buflen - i).toNat

def hexdump (ptr : Bytes) (buflen : Int32) : Dump := rows ptr buflen.toInt 0

/-- The sum is an `int`, the index is one of a buffer of `buflen` octets. -/
def Effect.Exact (buflen : Int) : Effect → Prop
  | .sum value => value ≤ INT_MAX
  | .load index => 0 ≤ index ∧ index < buflen
  | .printf _ => True

/-- The dump comes to its end, prints `out`, and stays within `int` and the buffer. -/
abbrev Prints (buflen : Int) (dump : Dump) (out : Bytes) : Prop :=
  Exec.Produces Effect.text (Effect.Exact buflen) dump out

/-- What is printed is that text, and no octet is loaded for it. -/
theorem printf_prints (buflen : Int) (text : Bytes) : Prints buflen (printf text) text :=
  .emit (P := Effect.Exact buflen) trivial

section
variable {buf : Bytes}

/-- A sum that fits `int` is what it is in the integers, and is recorded. -/
theorem add_eq {i j : Nat} (h : (i + j : Int) ≤ INT_MAX) :
    add i j = Exec.emit (.sum (i + j)) >>= fun _ => pure (i + j : Int) := by
  have hmin : INT_MIN ≤ (i + j : Int) := by
    rw [INT_MIN]
    omega
  rw [add, if_pos ⟨hmin, h⟩]

/-- A load within the buffer gives the octet, and is recorded. -/
theorem load_eq {i : Nat} {b : UInt8} (h : buf[i]? = some b) :
    load buf i = Exec.emit (.load i) >>= fun _ => pure b := by
  rw [load, if_neg (by omega), Int.toNat_natCast, h]

/-- The three characters of a slot: an octet in hexadecimal, or blanks after the last. -/
def slotText : Option UInt8 → Bytes
  | some b => hex.padded 2 b.toNat ++ lit " "
  | none => lit "   "

/-- The character of an octet, or nothing after the last. -/
def shownText : Option UInt8 → Bytes
  | some b => [printable b]
  | none => []

section
variable {i j : Nat} {out : Bytes} (hmax : (i + j : Int) ≤ INT_MAX)
include hmax

/-- `buf[i + j]` of an octet that is there. -/
theorem load_prints {b : UInt8} (hb : buf[i + j]? = some b) {rest : UInt8 → Dump}
    (hrest : Prints buf.length (rest b) out) :
    Prints buf.length (do rest (← load buf (← add i j))) out := by
  have hlt : i + j < buf.length := (List.getElem?_eq_some_iff.mp hb).1
  have hload : (Effect.load (i + j)).Exact buf.length := by
    constructor <;> omega
  have hoctet : load buf (i + j) = Exec.emit (.load (i + j)) >>= fun _ => pure b := by
    rw [← Int.natCast_add, load_eq hb]
  have hsum : (Effect.sum (i + j)).Exact buf.length := hmax
  simp only [add_eq hmax, hoctet, bind_assoc, pure_bind]
  apply Exec.Produces.after hsum rfl
  apply Exec.Produces.after hload rfl
  exact hrest

/-- A turn of an inner loop: what it does within the buffer, and what it does after. -/
theorem column_prints {within : UInt8 → Dump} {after : Dump}
    (hwithin : ∀ b, buf[i + j]? = some b → Prints buf.length (within b) out)
    (hafter : buf[i + j]? = none → Prints buf.length after out) :
    Prints buf.length (do if (← add i j) < buf.length then within (← load buf (← add i j)) else after) out := by
  have hsum : (Effect.sum (i + j)).Exact buf.length := hmax
  simp only [add_eq hmax, bind_assoc, pure_bind]
  apply Exec.Produces.after hsum rfl
  by_cases hlt : i + j < buf.length
  · have hb : buf[i + j]? = some buf[i + j] := List.getElem?_eq_getElem hlt
    have hloaded := load_prints hmax hb (hwithin buf[i + j] hb)
    rw [if_pos (by omega)]
    simpa only [add_eq hmax, bind_assoc, pure_bind] using hloaded
  · rw [if_neg (by omega)]
    exact hafter (List.getElem?_eq_none (by omega))

/-- A turn of the first inner loop: two digits and a space, or three spaces past the end. -/
theorem slot_prints : Prints buf.length (slot buf buf.length i j) (slotText buf[i + j]?) := by
  apply column_prints hmax
  · intro b hb
    rw [hb]
    exact printf_prints _ _
  · intro hnone
    rw [hnone]
    exact printf_prints _ _

/-- A turn of the second inner loop: the character, a dot for what is not printable, or nothing past
    the end. -/
theorem shown_prints : Prints buf.length (shown buf buf.length i j) (shownText buf[i + j]?) := by
  apply column_prints hmax
  · intro b hb
    rw [hb, shownText, printable]
    by_cases hprint : isprint b
    · simp only [if_pos hprint]
      exact load_prints hmax hb (printf_prints _ _)
    · simp only [if_neg hprint]
      exact printf_prints _ _
  · intro hnone
    rw [hnone]
    exact .nil

end

/-- What the body of the outer loop prints for the octets from `i` on. -/
def rowText (buf : Bytes) (i : Nat) : Bytes :=
  hex.padded 6 i ++ lit ": " ++
    ((List.range 16).flatMap (fun j => slotText buf[i + j]?) ++
      (lit " " ++ ((List.range 16).flatMap (fun j => shownText buf[i + j]?) ++ lit "\n")))

/-- A row of sixteen slots, with the last index of the row in the range of `int`. -/
theorem row_prints {i : Nat} (hmax : (i + 15 : Int) ≤ INT_MAX) :
    Prints buf.length (row buf buf.length i) (rowText buf i) := by
  have hturn : ∀ j ∈ List.range 16, (i + j : Int) ≤ INT_MAX := by
    intro j hj
    have hlt : j < 16 := List.mem_range.mp hj
    omega
  have hunsigned : unsigned i = i := by
    rw [INT_MAX] at hmax
    rw [unsigned]
    omega
  rw [row, hunsigned, rowText]
  apply Exec.Produces.seq (printf_prints _ _)
  apply Exec.Produces.seq (.forM fun j hj => slot_prints (hturn j hj))
  apply Exec.Produces.seq (printf_prints _ _)
  apply Exec.Produces.seq (.forM fun j hj => shown_prints (hturn j hj))
  exact printf_prints _ _

/-- A turn of the outer loop, the `k`th. -/
def turn (buf : Bytes) (buflen : Int) (k : Nat) : Dump := do
  row buf buflen (16 * k)
  let _ ← add (16 * k) 16

/-- While it is not past the end the outer loop is one turn after the other. -/
theorem rows_eq_forM (buf : Bytes) (buflen : Int) (q m : Nat) (h : 16 * (q + m : Int) < buflen + 16) :
    rows buf buflen (16 * q) =
      (List.range' q m).forM (turn buf buflen) >>= fun _ => rows buf buflen (16 * (q + m : Nat)) := by
  induction m generalizing q with
  | zero => exact (pure_bind _ _).symm
  | succ m ih =>
    have hnext : (16 * q + 16 : Int) = 16 * (q + 1 : Nat) := by
      omega
    have hrest := ih (q + 1) (by omega)
    rw [rows, if_pos (by omega), hnext, hrest]
    simp only [List.range'_succ, List.forM_eq_forM, List.forM_cons, turn, bind_assoc, pure_bind]
    rw [Nat.add_right_comm q 1 m]
    rfl

/-- A turn of the outer loop prints the row of its offset. -/
theorem turn_prints_row {k : Nat} (hmax : (16 * k + 16 : Int) ≤ INT_MAX) :
    Prints buf.length (turn buf buf.length k) (rowText buf (16 * k)) := by
  have hrow : Prints buf.length (row buf buf.length (16 * k)) (rowText buf (16 * k)) := by
    apply row_prints (i := 16 * k)
    omega
  have hsum : (Effect.sum (16 * k + 16)).Exact buf.length := hmax
  have hadd : add (16 * k) 16 = Exec.emit (.sum (16 * k + 16)) >>= fun _ => pure (16 * k + 16 : Int) :=
    add_eq (i := 16 * k) (j := 16) hmax
  have hstep : Prints buf.length (do let _ ← add (16 * k) 16) [] := by
    simp only [hadd, bind_assoc, pure_bind]
    exact Exec.Produces.after hsum rfl .nil
  rw [← List.append_nil (rowText buf (16 * k))]
  exact hrow.seq hstep

/-- The first `m` turns of the outer loop, none of which steps past `INT_MAX`. -/
theorem turns_print {m : Nat} (hmax : (16 * m : Int) ≤ INT_MAX) :
    Prints buf.length ((List.range' 0 m).forM (turn buf buf.length))
      ((List.range' 0 m).flatMap fun k => rowText buf (16 * k)) := by
  apply Exec.Produces.forM
  intro k hk
  have hlast : k < m := by
    rw [← List.range_eq_range'] at hk
    exact List.mem_range.mp hk
  apply turn_prints_row
  omega

/-- A loop that need not step past `INT_MAX` prints every row and ends. -/
theorem rows_prints {m : Nat} (hmax : (16 * m : Int) ≤ INT_MAX) (hle : buf.length ≤ 16 * m)
    (hlt : 16 * m < buf.length + 16) :
    Prints buf.length (rows buf buf.length 0) ((List.range m).flatMap fun k => rowText buf (16 * k)) := by
  have hend : rows buf buf.length (16 * (0 + m : Nat)) = pure () := by
    rw [rows, if_neg (by omega)]
  have hrun := rows_eq_forM buf buf.length 0 m (by omega)
  rw [hend, bind_pure_unit] at hrun
  rw [List.range_eq_range']
  exact hrun ▸ turns_print hmax

/-- A dump of a whole buffer that stays a row away from `INT_MAX`. A length below zero
    is one of an empty buffer: the loop does not start. -/
theorem hexdump_prints {buflen : Int32} (hlen : buf.length = buflen.toInt.toNat)
    (hmax : buflen.toInt ≤ 2147483632) :
    Prints buflen.toInt (hexdump buf buflen)
      ((List.range ((buf.length + 15) / 16)).flatMap fun k => rowText buf (16 * k)) := by
  by_cases hneg : buflen.toInt < 0
  · have hempty : (buf.length + 15) / 16 = 0 := by
      omega
    rw [hempty, hexdump, rows, if_neg (by omega)]
    exact .nil
  · have hlength : buflen.toInt = buf.length := by
      omega
    rw [hexdump, hlength]
    apply rows_prints
    · rw [INT_MAX]
      omega
    · omega
    · omega

end

end taraxacum.Tools
