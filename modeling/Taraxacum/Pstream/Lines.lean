import Taraxacum.Pstream.Stream

open json

namespace taraxacum.pstream

/-- The lines of a text. A newline ends a line; what follows the last one is a line
    too, unless it is empty. -/
def lines : Bytes → List Bytes
  | [] => []
  | b :: s =>
    if b = newline then [] :: lines s
    else match lines s with
      | [] => [[b]]
      | line :: rest => (b :: line) :: rest

/-- A text without its newlines. -/
def strip (s : Bytes) : Bytes := s.filter (· ≠ newline)

/-- Putting the lines of a text one after the other leaves its newlines out. -/
theorem flatten_lines (s : Bytes) : (lines s).flatten = strip s := by
  induction s with
  | nil => rfl
  | cons b s ih =>
    by_cases hb : b = newline
    · simpa [lines, strip, hb] using ih
    · have hflatten : (lines (b :: s)).flatten = b :: (lines s).flatten := by
        rw [lines, if_neg hb]
        cases lines s <;> rfl
      rw [hflatten, ih]
      simp [strip, hb]

@[simp] theorem strip_nil : strip [] = [] := rfl

/-- Newlines are dropped. -/
@[simp] theorem strip_newline (s : Bytes) : strip (newline :: s) = strip s := by
  simp [strip]

/-- All other octets are kept. -/
theorem strip_cons {b : UInt8} (hb : b ≠ newline) (s : Bytes) : strip (b :: s) = b :: strip s := by
  simp [strip, hb]

/-- Nothing is left of newlines only. -/
theorem strip_eq_nil_iff {s : Bytes} : strip s = [] ↔ ∀ b ∈ s, b = newline := by
  simp [strip]

/-- A newline ends the line before it. -/
theorem lines_append_newline {line : Bytes} (h : newline ∉ line) (s : Bytes) :
    lines (line ++ newline :: s) = line :: lines s := by
  induction line with
  | nil => rw [List.nil_append, lines, if_pos rfl]
  | cons b line ih =>
    have hb : b ≠ newline := fun heq => h (heq ▸ List.mem_cons_self ..)
    have htail : newline ∉ line := fun hmem => h (List.mem_cons_of_mem b hmem)
    rw [List.cons_append, lines, if_neg hb, ih htail]

end taraxacum.pstream
