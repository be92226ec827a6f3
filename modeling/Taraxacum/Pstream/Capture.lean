import Taraxacum.Pstream.Deadlock

open json
open transition

namespace taraxacum.pstream

section
variable {C : Nat}

/-- Both loops come to their end, and whenever they have, the lines of stdout are in
    `ssout` and those of stderr in `sserr`, each in order. -/
def Captures (C : Nat) (p : List Action) : Prop :=
  (∃ s : System C, Reaches p s ∧ s.shell.control = .sent) ∧
    ∀ s : System C, Reaches p s → s.shell.control = .sent →
      s.shell.captured.ssout = (lines (output .rsrc_out p)).flatten ∧
        s.shell.captured.sserr = (lines (output .rsrc_err p)).flatten

/-- What a child writes to stderr before it first closes a stream is a part of what it writes there.
    -/
theorem ahead_length_le (p : List Action) : (ahead p).length ≤ (output .rsrc_err p).length := by
  induction p with
  | nil => exact Nat.zero_le _
  | cons a p ih =>
    cases a with
    | write fd bs =>
      cases fd with
      | rsrc_out => simpa [ahead, output] using ih
      | rsrc_err => simpa [ahead, output] using ih
    | close fd => simp [ahead]
    | exit => simp [ahead]

/-- A child that does not block for good lets the handler come to its response. -/
theorem sent_reached (hC : 1 ≤ C) {p : List Action} (hle : (ahead p).length ≤ C) :
    ∃ s : System C, Reaches p s ∧ s.shell.control = .sent := by
  refine exists_reaches cost_step fun s hreach hstuck => ?_
  by_contra hsent
  obtain ⟨t, hstep⟩ := (tracks_of_reaches hreach).progress hC hle hsent
  exact hstuck t hstep

/-- With its response sent the handler has all of stdout and nothing of stderr. -/
theorem captured_of_sent {p : List Action} {s : System C} (hreach : Reaches p s)
    (hsent : s.shell.control = .sent) :
    s.shell.captured.ssout = strip (output .rsrc_out p) ∧ s.shell.captured.sserr = [] := by
  have htracks := tracks_of_reaches hreach
  have hreader := htracks.reader
  rw [Reader, hsent] at hreader
  exact ⟨hreader.2, htracks.sserr⟩

/-- The output of a child that writes no more to stderr than the pipe holds is captured
    exactly when it writes nothing there but newlines: stdout always is, stderr never. -/
theorem captures_iff (hC : 1 ≤ C) (p : List Action) (hle : (output .rsrc_err p).length ≤ C) :
    Captures C p ↔ ∀ b ∈ output .rsrc_err p, b = newline := by
  have hdone := sent_reached hC (Nat.le_trans (ahead_length_le p) hle)
  rw [← strip_eq_nil_iff, ← flatten_lines]
  constructor
  · rintro ⟨_, hcaptured⟩
    obtain ⟨s, hreach, hsent⟩ := hdone
    obtain ⟨_, hsserr⟩ := captured_of_sent hreach hsent
    exact (hcaptured s hreach hsent).2.symm.trans hsserr
  · intro hnone
    refine ⟨hdone, fun s hreach hsent => ?_⟩
    obtain ⟨hssout, hsserr⟩ := captured_of_sent hreach hsent
    rw [hssout, hsserr, hnone, flatten_lines]
    exact ⟨rfl, rfl⟩

end

/-- A child with two newlines on stderr and two lines on stdout, the second without a newline. -/
theorem captures_two_lines : Captures 2 [.write .rsrc_err (lit "\n\n"), .write .rsrc_out (lit "a\nb")] :=
  (captures_iff (Nat.le_succ 1) _ (by decide +kernel)).mpr (by decide +kernel)

/-- A child with one line on stderr. -/
theorem captures_fails :
    ¬ ∀ (C : Nat) (p : List Action), (output .rsrc_out p).length ≤ C →
      (output .rsrc_err p).length ≤ C → Captures C p := by
  intro h
  obtain ⟨⟨s, hreach, hsent⟩, hcaptured⟩ := h 2 [.write .rsrc_err (lit "x\n")] (by decide) (by decide)
  obtain ⟨_, hsserr⟩ := captured_of_sent hreach hsent
  have hlines := (hcaptured s hreach hsent).2
  rw [hsserr] at hlines
  exact absurd hlines (by decide)

end taraxacum.pstream
