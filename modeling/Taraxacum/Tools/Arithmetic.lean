import Taraxacum.Tools.Lossless

open json exec taraxacum.pstream

namespace taraxacum.Tools

/-- The dump's arithmetic is that of the integers: every sum is an `int`, every index one
    of the buffer, and the outer loop ends after one row for every sixteen octets begun. -/
structure ExactArithmetic (buf : Bytes) (buflen : Int32) : Prop where
  sums : ∀ value : Int, .sum value ∈ (hexdump buf buflen).events → value ≤ INT_MAX
  loads : ∀ index : Int, .load index ∈ (hexdump buf buflen).events → 0 ≤ index ∧ index < buflen.toInt
  returned : (hexdump buf buflen).outcome = .returned ()
  rows : (lines (printed (hexdump buf buflen))).length = (buflen.toInt.toNat + 15) / 16

/-- A buffer that goes on into the last row before `INT_MAX`: the step after that row
    leaves `int`. -/
theorem rows_overflow {buf : Bytes} (h : 2147483632 < buf.length) :
    .sum 2147483648 ∈ (rows buf buf.length 0).events := by
  have hbefore := @turns_print buf 134217727 (by rw [INT_MAX]; omega)
  have hlast : Prints buf.length (row buf buf.length (2147483632 : Nat)) (rowText buf 2147483632) := by
    apply row_prints
    rw [INT_MAX]
    omega
  have hrun : rows buf buf.length 0 = _ := rows_eq_forM buf buf.length 0 134217727 (by omega)
  rw [hrun, Exec.bind_events_of_returned hbefore.returned, List.mem_append]
  right
  have hstart : (16 * (0 + 134217727 : Nat) : Int) = (2147483632 : Nat) := by
    omega
  rw [hstart, rows, if_pos (by omega), Exec.bind_events_of_returned hlast.returned, List.mem_append]
  right
  exact List.mem_cons_self ..

/-- Past the bound the offset of the row after the last is not an `int` any more. -/
theorem not_exactArithmetic {buf : Bytes} {buflen : Int32} (hlen : buflen.toInt = buf.length)
    (h : 2147483632 < buf.length) : ¬ ExactArithmetic buf buflen := by
  intro hexact
  have hsum : .sum 2147483648 ∈ (hexdump buf buflen).events := by
    rw [hexdump, hlen]
    exact rows_overflow h
  have hle := hexact.sums 2147483648 hsum
  rw [INT_MAX] at hle
  omega

/-- The step past the last row is what bounds a dump: its arithmetic is exact up to
    `INT_MAX - 15`, and for no greater length. -/
theorem exactArithmetic_iff (buf : Bytes) (buflen : Int32) (hlen : buf.length = buflen.toInt.toNat) :
    ExactArithmetic buf buflen ↔ buflen.toInt ≤ 2147483632 := by
  constructor
  · intro hexact
    by_contra hlong
    have hlength : buflen.toInt = buf.length := by
      omega
    exact not_exactArithmetic hlength (by omega) hexact
  · intro hmax
    have hprints := hexdump_prints hlen hmax
    constructor
    case sums =>
      intro value hmem
      exact hprints.emits _ hmem
    case loads =>
      intro index hmem
      exact hprints.emits _ hmem
    case returned => exact hprints.returned
    case rows => rw [printed, hprints.view_eq, lines_rowText, List.length_map, List.length_range, hlen]

/-- A row of sixteen octets and one of four. -/
theorem exactArithmetic_two_rows : ExactArithmetic (lit "taraxacum flowering\n") 20 :=
  (exactArithmetic_iff (lit "taraxacum flowering\n") 20 (by decide)).mpr (by decide)

/-- The greatest length there is, and a buffer of it. -/
theorem not_exactArithmetic_max :
    (List.replicate 2147483647 newline).length = (2147483647 : Int32).toInt.toNat ∧
      ¬ ExactArithmetic (List.replicate 2147483647 newline) 2147483647 := by
  have hlength : (List.replicate 2147483647 newline).length = 2147483647 := List.length_replicate
  have hint : (2147483647 : Int32).toInt = 2147483647 := by
    decide
  constructor
  · rw [hlength, hint]
    rfl
  · apply not_exactArithmetic
    · rw [hlength, hint]
      rfl
    · rw [hlength]
      decide

end taraxacum.Tools
