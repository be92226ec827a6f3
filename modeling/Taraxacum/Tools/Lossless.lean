import Taraxacum.Pstream.Lines
import Taraxacum.Tools.Hexdump

open json exec taraxacum.pstream

namespace taraxacum.Tools

/-- A line of a dump by its columns. -/
structure Line where
  offset : Bytes
  slots : List Bytes
  chars : Bytes

def Line.text (line : Line) : Bytes :=
  line.offset ++ lit ": " ++ (line.slots.flatten ++ (lit " " ++ line.chars))

/-- The octets the `k`th row is about. -/
def octets (buf : Bytes) (k : Nat) : Bytes := (buf.drop (16 * k)).take 16

/-- What the columns of the `k`th line hold. -/
structure Line.Holds (line : Line) (buf : Bytes) (k : Nat) : Prop where
  offset_value : hex.value? line.offset = some (16 * k)
  offset_length : 6 ≤ line.offset.length
  slots_eq : line.slots = (List.range 16).map fun j => slotText buf[16 * k + j]?
  slots_width : ∀ slot ∈ line.slots, slot.length = 3
  chars_eq : line.chars = (octets buf k).map printable

/-- What follows the first `": "`. -/
def afterOffset : Bytes → Option Bytes
  | 0x3A :: 0x20 :: s => some s
  | _ :: s => afterOffset s
  | [] => none

/-- The octet of a slot, if it is not blank. -/
def readSlot? (a b c : UInt8) : Option (Option UInt8) :=
  if a = space ∧ b = space ∧ c = space then some none
  else do
    let high ← hexDigit? a
    let low ← hexDigit? b
    if c = space then some (some (UInt8.ofNat (16 * high + low))) else none

/-- The octets of `m` slots. -/
def readSlots : Nat → Bytes → Option Bytes
  | 0, _ => some []
  | m + 1, a :: b :: c :: s => do
    let slot ← readSlot? a b c
    let rest ← readSlots m s
    return slot.toList ++ rest
  | _ + 1, _ => none

def readLine (line : Bytes) : Option Bytes := do readSlots 16 (← afterOffset line)

def readLines : List Bytes → Option Bytes
  | [] => some []
  | line :: rest => do return (← readLine line) ++ (← readLines rest)

/-- The buffer a dump was made of. -/
def undump (text : Bytes) : Option Bytes := readLines (lines text)

/-- Every slot takes three columns, filled or not. -/
theorem length_slotText (slot : Option UInt8) : (slotText slot).length = 3 := by
  cases slot with
  | none => rfl
  | some b =>
    rw [slotText, hex.padded_two b.toNat_lt]
    rfl

/-- The offset ends at the first colon. -/
theorem afterOffset_append {offset : Bytes} (h : colon ∉ offset) (s : Bytes) :
    afterOffset (offset ++ lit ": " ++ s) = some s := by
  induction offset with
  | nil => rfl
  | cons b offset ih =>
    have hb : b ≠ colon := fun heq => h (heq ▸ List.mem_cons_self ..)
    have htail : colon ∉ offset := fun hmem => h (List.mem_cons_of_mem b hmem)
    rw [List.cons_append, List.cons_append, afterOffset]
    · exact ih htail
    · rintro s rfl
      exact absurd rfl hb

/-- Two digits are read back as their octet. -/
theorem readSlot?_digits (b : UInt8) :
    readSlot? (hex.digit (b.toNat / 16)) (hex.digit (b.toNat % 16)) space = some (some b) := by
  have hlt : b.toNat < 256 := b.toNat_lt
  have hhigh := hex.hexDigit?_digit (b.toNat / 16) (by omega)
  have hlow := hex.hexDigit?_digit (b.toNat % 16) (by omega)
  have hblank : hex.digit (b.toNat / 16) ≠ space := by
    intro heq
    rw [heq] at hhigh
    cases hhigh
  have hvalue : 16 * (b.toNat / 16) + b.toNat % 16 = b.toNat := by
    omega
  rw [readSlot?, if_neg (fun h => hblank h.1), hhigh, hlow]
  simp only [Option.bind_eq_bind, Option.bind_some, if_true, hvalue, UInt8.ofNat_toNat]

/-- One slot more to read: its octet, if it has one, comes first. -/
theorem readSlots_slotText (m : Nat) (slot : Option UInt8) (s : Bytes) :
    readSlots (m + 1) (slotText slot ++ s) = (readSlots m s).map fun rest => slot.toList ++ rest := by
  cases slot with
  | none =>
    change ((readSlots m s).bind fun rest => some ([] ++ rest)) = _
    rw [Option.map_eq_bind]
    rfl
  | some b =>
    rw [slotText, hex.padded_two b.toNat_lt]
    change ((readSlot? (hex.digit (b.toNat / 16)) (hex.digit (b.toNat % 16)) space).bind fun slot =>
      (readSlots m s).bind fun rest => some (slot.toList ++ rest)) = _
    rw [readSlot?_digits, Option.map_eq_bind]
    rfl

/-- What stands from `i` on is the octet at `i`, if there is one, and the rest. -/
theorem take_drop_succ (buf : Bytes) (i m : Nat) :
    (buf.drop i).take (m + 1) = buf[i]?.toList ++ (buf.drop (i + 1)).take m := by
  by_cases hlt : i < buf.length
  · rw [List.getElem?_eq_getElem hlt, List.drop_eq_getElem_cons hlt]
    rfl
  · rw [List.getElem?_eq_none (by omega), List.drop_eq_nil_of_le (by omega)]
    rw [List.drop_eq_nil_of_le (by omega), List.take_nil, List.take_nil]
    rfl

/-- The slots from `i` on read back as the octets from `i` on, as many as there are. -/
theorem readSlots_slots (buf : Bytes) (i m : Nat) (s : Bytes) :
    readSlots m ((List.range' i m).flatMap (fun j => slotText buf[j]?) ++ s) = some ((buf.drop i).take m) := by
  induction m generalizing i with
  | zero => rfl
  | succ m ih =>
    rw [List.range'_succ, List.flatMap_cons, List.append_assoc, readSlots_slotText, ih (i + 1)]
    rw [Option.map_some, take_drop_succ]

/-- What is shown in the second part of a row does not end the row. -/
theorem printable_ne_newline (b : UInt8) : printable b ≠ newline := by
  intro heq
  by_cases hprint : isprint b
  · rw [printable, if_pos hprint] at heq
    rw [heq] at hprint
    revert hprint
    decide
  · rw [printable, if_neg hprint] at heq
    revert heq
    decide

theorem newline_not_mem_slotText (slot : Option UInt8) : newline ∉ slotText slot := by
  cases slot with
  | none => decide
  | some b =>
    intro hmem
    rcases List.mem_append.mp hmem with hmem | hmem
    · exact hex.not_mem_padded (by decide) 2 b.toNat hmem
    · revert hmem
      decide

section
variable {buf : Bytes} {k : Nat} {line : Line}

/-- The offset of a line ends before the first colon. -/
theorem Line.Holds.colon_not_mem (h : line.Holds buf k) : colon ∉ line.offset := by
  intro hmem
  exact hex.hexDigit?_ne_none_of_mem h.offset_value hmem (by decide)

/-- A row has no newline but its last octet. -/
theorem Line.Holds.newline_not_mem (h : line.Holds buf k) : newline ∉ line.text := by
  intro hmem
  rw [Line.text, List.mem_append, List.mem_append, List.mem_append, List.mem_append] at hmem
  rcases hmem with (hoffset | hcolon) | hslots | hspace | hchars
  · exact hex.hexDigit?_ne_none_of_mem h.offset_value hoffset (by decide)
  · revert hcolon
    decide
  · rw [h.slots_eq, ← List.flatMap_def, List.mem_flatMap] at hslots
    obtain ⟨j, _, hslot⟩ := hslots
    exact newline_not_mem_slotText _ hslot
  · revert hspace
    decide
  · rw [h.chars_eq, List.mem_map] at hchars
    obtain ⟨b, _, hb⟩ := hchars
    exact printable_ne_newline b hb

/-- A line reads back as the octets of its row. -/
theorem Line.Holds.readLine_text (h : line.Holds buf k) : readLine line.text = some (octets buf k) := by
  have hslots : line.slots.flatten = (List.range' (16 * k) 16).flatMap fun j => slotText buf[j]? := by
    rw [h.slots_eq, List.range'_eq_map_range, List.flatMap_map, List.flatMap_def]
  rw [readLine, Line.text, afterOffset_append h.colon_not_mem, hslots]
  exact readSlots_slots buf (16 * k) 16 _

end

/-- An offset of seven digits, and a last column with a colon and a blank in it. -/
example : readLine (lit "1000000: 41 3a 20                                         A: ") =
    some (lit "A: ") := by
  decide

/-- The line a turn of the outer loop prints. -/
def lineOf (buf : Bytes) (k : Nat) : Line where
  offset := hex.padded 6 (16 * k)
  slots := (List.range 16).map fun j => slotText buf[16 * k + j]?
  chars := (octets buf k).map printable

/-- The row of an offset has the offset, the slots and the characters it should have. -/
theorem lineOf_holds (buf : Bytes) (k : Nat) : (lineOf buf k).Holds buf k where
  offset_value := hex.value?_padded 6 (16 * k)
  offset_length := hex.le_length_padded 6 (16 * k)
  slots_eq := rfl
  slots_width := by
    intro slot hslot
    obtain ⟨j, _, rfl⟩ := List.mem_map.mp hslot
    exact length_slotText _
  chars_eq := rfl

/-- One character for each octet there is. -/
theorem shown_eq (buf : Bytes) (i m : Nat) :
    (List.range' i m).flatMap (fun j => shownText buf[j]?) = ((buf.drop i).take m).map printable := by
  induction m generalizing i with
  | zero => rfl
  | succ m ih =>
    rw [List.range'_succ, List.flatMap_cons, ih (i + 1), take_drop_succ, List.map_append]
    cases buf[i]? <;> rfl

/-- What is printed for a row is its line with a newline. -/
theorem rowText_eq (buf : Bytes) (k : Nat) : rowText buf (16 * k) = (lineOf buf k).text ++ [newline] := by
  have hshown : (List.range 16).flatMap (fun j => shownText buf[16 * k + j]?) =
      (octets buf k).map printable := by
    rw [octets, ← shown_eq, List.range'_eq_map_range, List.flatMap_map]
  rw [rowText, hshown, Line.text, List.flatMap_def]
  simp only [lineOf, List.append_assoc]
  rfl

/-- The rows put together are the buffer. -/
theorem flatMap_octets (buf : Bytes) (q m : Nat) :
    (List.range' q m).flatMap (octets buf) = (buf.drop (16 * q)).take (16 * m) := by
  induction m generalizing q with
  | zero => rfl
  | succ m ih =>
    have hnext : 16 * (q + 1) = 16 * q + 16 := by
      omega
    have hlength : 16 * (m + 1) = 16 + 16 * m := by
      omega
    rw [List.range'_succ, List.flatMap_cons, ih (q + 1), octets]
    rw [hnext, hlength, List.take_add, List.drop_drop]

/-- Lines that are read one by one give the octets of their rows, in order. -/
theorem readLines_lineOf (buf : Bytes) (ks : List Nat) :
    readLines (ks.map fun k => (lineOf buf k).text) = some (ks.flatMap (octets buf)) := by
  induction ks with
  | nil => rfl
  | cons k ks ih =>
    rw [List.map_cons, readLines, (lineOf_holds buf k).readLine_text, ih]
    rfl

/-- The dump is cut at its newlines into the rows it was made of. -/
theorem lines_rowText (buf : Bytes) (ks : List Nat) :
    lines (ks.flatMap fun k => rowText buf (16 * k)) = ks.map fun k => (lineOf buf k).text := by
  induction ks with
  | nil => rfl
  | cons k ks ih =>
    rw [List.flatMap_cons, rowText_eq, List.append_assoc, List.singleton_append]
    rw [lines_append_newline (lineOf_holds buf k).newline_not_mem, ih]
    rfl

/-- A dump that ends, keeps to the buffer, has `dumped` for its lines and reads back
    as the buffer. -/
structure DumpOf (buf : Bytes) (dump : Dump) (dumped : List Line) : Prop where
  returned : dump.outcome = .returned ()
  loads : ∀ index : Int, .load index ∈ dump.events → 0 ≤ index ∧ index < buf.length
  printed_eq : printed dump = dumped.flatMap fun line => line.text ++ [newline]
  lines_eq : lines (printed dump) = dumped.map Line.text
  length_eq : dumped.length = (buf.length + 15) / 16
  holds : ∀ (k : Nat) (line : Line), dumped[k]? = some line → line.Holds buf k
  undump_eq : undump (printed dump) = some buf

/-- A dump loses nothing of a buffer of up to `INT_MAX - 15` octets. -/
theorem hexdump_lossless (buf : Bytes) (buflen : Int32) (hlen : buflen.toInt = buf.length)
    (hmax : buf.length ≤ 2147483632) : ∃ dumped, DumpOf buf (hexdump buf buflen) dumped := by
  have hprints := hexdump_prints (show buf.length = buflen.toInt.toNat by omega) (by omega)
  have hprinted := hprints.view_eq
  have hlines := congrArg lines hprinted
  rw [lines_rowText] at hlines
  refine ⟨(List.range ((buf.length + 15) / 16)).map (lineOf buf), ?_⟩
  constructor
  case returned => exact hprints.returned
  case loads =>
    intro index hmem
    rw [← hlen]
    exact hprints.emits _ hmem
  case printed_eq =>
    rw [printed, hprinted, List.flatMap_map]
    simp only [rowText_eq]
  case lines_eq =>
    rw [List.map_map]
    exact hlines
  case length_eq => rw [List.length_map, List.length_range]
  case holds =>
    intro k line hline
    rw [List.getElem?_map, Option.map_eq_some_iff] at hline
    obtain ⟨k', hk, rfl⟩ := hline
    obtain ⟨_, rfl⟩ := List.getElem?_eq_some_iff.mp hk
    rw [List.getElem_range]
    exact lineOf_holds buf k
  case undump_eq =>
    have hwhole : (buf.drop (16 * 0)).take (16 * ((buf.length + 15) / 16)) = buf := by
      apply List.take_of_length_le
      rw [List.length_drop]
      omega
    rw [undump, printed, hlines, readLines_lineOf, List.range_eq_range', flatMap_octets, hwhole]

/-- A row of sixteen octets and one of four, the last of which is no character. -/
theorem hexdump_lossless_two_rows :
    ∃ dumped, DumpOf (lit "taraxacum flowering\n") (hexdump (lit "taraxacum flowering\n") 20) dumped :=
  hexdump_lossless (lit "taraxacum flowering\n") 20 (by decide) (by decide)

end taraxacum.Tools
