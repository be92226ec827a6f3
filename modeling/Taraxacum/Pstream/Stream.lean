import Taraxacum.Json.Grammar
import Taraxacum.ShellCmd.Handler

open json

namespace taraxacum.pstream

abbrev newline : UInt8 := 0x0A

/-- Which of the child's two streams is read, or written. -/
inductive buf_read_src where
  | rsrc_out
  | rsrc_err
  deriving DecidableEq

def bufsz : Nat := 32
def pbsz : Nat := 2

/-- A `basic_ipstream`: the state bits of the one stream that `out` and `err` both
    return, the source its buffer reads, what is left of the get area, and the area
    put by for the other source. The putback octets in front of it are never asked for. -/
structure basic_ipstream where
  eofbit : Bool
  failbit : Bool
  rsrc_ : buf_read_src
  gptr : Bytes
  rbufstate_ : Bytes
  deriving DecidableEq

namespace basic_ipstream

/-- A stream whose process has just been started. -/
def opened : basic_ipstream where
  eofbit := false
  failbit := false
  rsrc_ := .rsrc_out
  gptr := []
  rbufstate_ := []

def good (self : basic_ipstream) : Bool := !self.eofbit && !self.failbit

/-- A stream that has failed is not good. -/
theorem good_of_failbit {self : basic_ipstream} (hfail : self.failbit = true) : self.good = false := by
  simp [good, hfail]

def switch_read_buffer (self : basic_ipstream) (src : buf_read_src) : basic_ipstream :=
  if self.rsrc_ ≠ src then { self with gptr := self.rbufstate_, rbufstate_ := self.gptr, rsrc_ := src }
  else self

def read_err (self : basic_ipstream) (readerr : Bool) : basic_ipstream :=
  self.switch_read_buffer (if readerr then .rsrc_err else .rsrc_out)

def out (self : basic_ipstream) : basic_ipstream := self.read_err false
def err (self : basic_ipstream) : basic_ipstream := self.read_err true

end basic_ipstream

/-- Where the handler is: about to evaluate the condition of one of its loops, inside
    the `getline` there with what that has extracted so far, or past both loops with
    its response sent. -/
inductive Control where
  | condition (src : buf_read_src)
  | getline (src : buf_read_src) (line : Bytes)
  | sent
  deriving DecidableEq

/-- The handler while it reads the child's output. -/
structure Shell where
  control : Control
  proc : basic_ipstream
  captured : ShellCmd.Captured

namespace Shell

def start : Shell := { control := .condition .rsrc_out, proc := .opened, captured := ⟨[], []⟩ }

/-- The handler whose command could not be started: its stream has failed already. -/
def unopened : Shell := { start with proc := { basic_ipstream.opened with failbit := true } }

/-- The stream a loop reads from: `proc.out()` or `proc.err()`. -/
def select (proc : basic_ipstream) : buf_read_src → basic_ipstream
  | .rsrc_out => proc.out
  | .rsrc_err => proc.err

/-- What follows a loop: the other loop after the first, the response after the second. -/
def after : buf_read_src → Control
  | .rsrc_out => .condition .rsrc_err
  | .rsrc_err => .sent

/-- The body of a loop. -/
def append (captured : ShellCmd.Captured) (line : Bytes) : buf_read_src → ShellCmd.Captured
  | .rsrc_out => { captured with ssout := captured.ssout ++ line }
  | .rsrc_err => { captured with sserr := captured.sserr ++ line }

/-- A step inside the process, if there is one: `getline` finds the stream good or
    fails, or takes an octet from the get area. -/
def advance (self : Shell) : Option Shell :=
  match self.control with
  | .sent => none
  | .condition src =>
    let proc := select self.proc src
    if proc.good then some { self with proc, control := .getline src [] }
    else some { self with proc := { proc with failbit := true }, control := after src }
  | .getline src line =>
    match self.proc.gptr with
    | [] => none
    | c :: gptr =>
      let proc := { self.proc with gptr }
      if c = newline then
        some { control := .condition src, proc, captured := append self.captured line src }
      else some { self with proc, control := .getline src (line ++ [c]) }

/-- The pipe a blocking `read` waits for. -/
def reads (self : Shell) : Option buf_read_src :=
  match self.control with
  | .getline _ _ => if self.proc.gptr = [] then some self.proc.rsrc_ else none
  | _ => none

/-- `fill_buffer` after `read` gave it something. -/
def filled (self : Shell) (chunk : Bytes) : Shell := { self with proc := { self.proc with gptr := chunk } }

/-- `getline` after `read` found the end of the pipe: a line that has been begun counts,
    an empty one sets `failbit` and ends the loop. -/
def atEof (self : Shell) : Shell :=
  match self.control with
  | .getline src line =>
    if line = [] then
      { self with proc := { self.proc with eofbit := true, failbit := true }, control := after src }
    else
      { control := .condition src, proc := { self.proc with eofbit := true },
        captured := append self.captured line src }
  | _ => self

/-- Selecting a source does not change whether the stream is good, since neither bit is cleared. -/
theorem select_good (proc : basic_ipstream) (src : buf_read_src) : (select proc src).good = proc.good := by
  cases src <;> simp only [select, basic_ipstream.out, basic_ipstream.err, basic_ipstream.read_err,
    basic_ipstream.switch_read_buffer] <;> split_ifs <;> rfl

/-- Selecting the source that is read already changes nothing. -/
theorem select_rsrc_ {proc : basic_ipstream} {src : buf_read_src} (hsrc : proc.rsrc_ = src) :
    select proc src = proc := by
  subst hsrc
  cases h : proc.rsrc_ <;>
    simp [select, basic_ipstream.out, basic_ipstream.err, basic_ipstream.read_err,
      basic_ipstream.switch_read_buffer, h]

/-- A handler is in `read` exactly if its `getline` has used up the area of the source in use. -/
theorem reads_eq_some_iff {self : Shell} {src : buf_read_src} :
    self.reads = some src ↔
      ∃ loop line, self.control = .getline loop line ∧ self.proc.gptr = [] ∧ self.proc.rsrc_ = src := by
  obtain ⟨control, proc, captured⟩ := self
  cases control <;> simp [reads]

/-- Before the response is sent a handler that cannot go on by itself waits for a pipe. -/
theorem reads_of_not_advance {self : Shell} (hsent : self.control ≠ .sent)
    (hadvance : ¬ ∃ shell, self.advance = some shell) : ∃ src, self.reads = some src := by
  obtain ⟨control, proc, captured⟩ := self
  cases control with
  | sent => exact absurd rfl hsent
  | condition src =>
    refine absurd ?_ hadvance
    simp only [advance]
    split_ifs <;> exact ⟨_, rfl⟩
  | getline src line =>
    cases hgptr : proc.gptr with
    | nil => exact ⟨proc.rsrc_, reads_eq_some_iff.mpr ⟨src, line, rfl, hgptr, rfl⟩⟩
    | cons c gptr =>
      refine absurd ?_ hadvance
      simp only [advance, hgptr]
      split_ifs <;> exact ⟨_, rfl⟩

end Shell

end taraxacum.pstream
