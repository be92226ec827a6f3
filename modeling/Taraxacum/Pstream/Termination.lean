import Taraxacum.Pstream.System
import Taraxacum.Transition

open json Function

namespace taraxacum.pstream

variable {C : Nat}

/-- An octet costs more the further it still has to go: from the child to the pipe, to
    the get area, to the handler. -/
def Action.cost : Action → Nat
  | .write _ bs => 1 + 4 * bs.length
  | .close _ | .exit => 1

def cost : List Action → Nat
  | [] => 0
  | a :: child => a.cost + cost child

def Pipe.cost (self : Pipe C) : Nat := 3 * self.buf.length + self.wopen.toNat

/-- The second loop comes after the first. -/
def rank : buf_read_src → Nat
  | .rsrc_out => 6
  | .rsrc_err => 3

/-- A condition is worth another `getline` only while the stream is good. -/
def Shell.cost (self : Shell) : Nat :=
  2 * (self.proc.gptr.length + self.proc.rbufstate_.length) +
    match self.control with
    | .condition src => rank src + if self.proc.good then 2 else 0
    | .getline src _ => rank src + 1
    | .sent => 0

def System.cost (s : System C) : Nat :=
  pstream.cost s.child + ((s.pipes .rsrc_out).cost + (s.pipes .rsrc_err).cost) + s.shell.cost

/-- Selecting a source only exchanges the areas. -/
theorem select_length (proc : basic_ipstream) (src : buf_read_src) :
    (Shell.select proc src).gptr.length + (Shell.select proc src).rbufstate_.length =
      proc.gptr.length + proc.rbufstate_.length := by
  cases src <;> simp only [Shell.select, basic_ipstream.out, basic_ipstream.err, basic_ipstream.read_err,
    basic_ipstream.switch_read_buffer] <;> split_ifs <;> simp only [Nat.add_comm]

/-- A loop that is left brings the handler nearer to its response. -/
theorem rank_after (src : buf_read_src) (proc : basic_ipstream) (captured : ShellCmd.Captured)
    (hbad : proc.good = false) :
    (Shell.mk (Shell.after src) proc captured).cost <
      2 * (proc.gptr.length + proc.rbufstate_.length) + rank src := by
  cases src <;> simp [Shell.after, Shell.cost, hbad, rank]

/-- A step in memory costs something. -/
theorem cost_advance {self shell : Shell} (h : self.advance = some shell) : shell.cost < self.cost := by
  obtain ⟨control, proc, captured⟩ := self
  cases control with
  | sent => cases h
  | condition src =>
    have hlength := select_length proc src
    have hgood := Shell.select_good proc src
    simp only [Shell.advance] at h
    split_ifs at h with hselected
    · obtain rfl := Option.some.inj h
      rw [hgood] at hselected
      simp only [Shell.cost, hlength, hselected, if_true]
      omega
    · obtain rfl := Option.some.inj h
      have hrank := rank_after src { Shell.select proc src with failbit := true } captured
        (basic_ipstream.good_of_failbit rfl)
      simp only [hlength] at hrank
      rw [hgood] at hselected
      simp only [Shell.cost, hselected] at hrank ⊢
      exact hrank
  | getline src line =>
    simp only [Shell.advance] at h
    split at h
    · cases h
    · rename_i c gptr hgptr
      split_ifs at h with hc
      · obtain rfl := Option.some.inj h
        simp only [Shell.cost, hgptr, List.length_cons]
        split_ifs <;> omega
      · obtain rfl := Option.some.inj h
        simp only [Shell.cost, hgptr, List.length_cons]
        omega

theorem cost_atEof {self : Shell} {src : buf_read_src} (hreads : self.reads = some src) :
    self.atEof.cost < self.cost := by
  obtain ⟨loop, line, hcontrol, _, _⟩ := Shell.reads_eq_some_iff.mp hreads
  obtain ⟨control, proc, captured⟩ := self
  obtain rfl : control = .getline loop line := hcontrol
  simp only [Shell.atEof]
  split_ifs with hline
  · have hrank := rank_after loop { proc with eofbit := true, failbit := true } captured
      (basic_ipstream.good_of_failbit rfl)
    simp only [Shell.cost] at hrank ⊢
    omega
  · simp [Shell.cost, basic_ipstream.good]

/-- The cost of both pipes, when one of them changes. -/
theorem cost_pipes_update (pipes : buf_read_src → Pipe C) (fd : buf_read_src) (pipe : Pipe C) :
    (update pipes fd pipe .rsrc_out).cost + (update pipes fd pipe .rsrc_err).cost + (pipes fd).cost =
      (pipes .rsrc_out).cost + (pipes .rsrc_err).cost + pipe.cost := by
  cases fd <;> simp [update] <;> omega

/-- An octet in the pipe costs three steps at most. -/
theorem cost_write (self : Pipe C) (bs : Bytes) (hroom : self.buf.length + bs.length ≤ C) :
    (self.write bs hroom).cost = self.cost + 3 * bs.length := by
  simp only [Pipe.cost, Pipe.buf_write, Pipe.wopen_write, List.length_append]
  omega

/-- What is read of a pipe is not paid again in it. -/
theorem cost_read {self : Pipe C} {n : Nat} (hle : n ≤ self.buf.length) :
    (self.read n).cost + 3 * n = self.cost := by
  simp only [Pipe.cost, Pipe.buf_read, Pipe.wopen_read, List.length_drop]
  omega

/-- Closing a pipe costs nothing. -/
theorem cost_close_le (self : Pipe C) : self.close.cost ≤ self.cost := by
  simp [Pipe.cost]

/-- Closing a pipe that is open takes something off its cost. -/
theorem cost_close_lt {self : Pipe C} (hopen : self.wopen = true) : self.close.cost < self.cost := by
  simp [Pipe.cost, hopen]

/-- Every step of the child brings the end nearer. -/
theorem cost_child {s t : System C} (h : ChildStep s t) : t.cost < s.cost := by
  cases h with
  | @write fd bs child n hchild hopen hpos hle hroom =>
    have hpipes := cost_pipes_update s.pipes fd ((s.pipes fd).write (bs.take n) hroom)
    rw [cost_write, List.length_take_of_le hle] at hpipes
    simp only [System.cost, hchild, pstream.cost, Action.cost, List.length_drop]
    omega
  | written hchild =>
    simp only [System.cost, hchild, pstream.cost, Action.cost]
    omega
  | refused hchild =>
    simp only [System.cost, hchild, pstream.cost, Action.cost]
    omega
  | @close fd child hchild =>
    have hpipes := cost_pipes_update s.pipes fd (s.pipes fd).close
    have hle := cost_close_le (s.pipes fd)
    simp only [System.cost, hchild, pstream.cost, Action.cost]
    omega
  | exit hchild =>
    have hout := cost_close_le (s.pipes .rsrc_out)
    have herr := cost_close_le (s.pipes .rsrc_err)
    simp only [System.cost, hchild, pstream.cost, Action.cost]
    omega
  | @finish fd hchild hopen =>
    have hout := cost_close_le (s.pipes .rsrc_out)
    have herr := cost_close_le (s.pipes .rsrc_err)
    have hlt := cost_close_lt hopen
    simp only [System.cost]
    cases fd <;> omega

/-- Every step of the handler brings the end nearer. -/
theorem cost_shell {s t : System C} (h : ShellStep s t) : t.cost < s.cost := by
  cases h with
  | advance hadvance =>
    have hlt := cost_advance hadvance
    simp only [System.cost]
    omega
  | @read src n hreads hpos hle hroom =>
    have hpipes := cost_pipes_update s.pipes src ((s.pipes src).read n)
    have hread := cost_read hle
    obtain ⟨loop, line, hcontrol, hgptr, _⟩ := Shell.reads_eq_some_iff.mp hreads
    have hfilled : (s.shell.filled ((s.pipes src).buf.take n)).cost = s.shell.cost + 2 * n := by
      simp only [Shell.cost, Shell.filled, hcontrol, hgptr, List.length_take_of_le hle, List.length_nil]
      omega
    simp only [System.cost, hfilled]
    omega
  | eof hreads =>
    have hlt := cost_atEof hreads
    simp only [System.cost]
    omega

/-- Every step of either party brings the end nearer. -/
theorem cost_step (s t : System C) (h : Step s t) : t.cost < s.cost :=
  h.elim cost_child cost_shell

end taraxacum.pstream
