import Taraxacum.Pstream.Lines
import Taraxacum.Pstream.System
import Taraxacum.Transition

open json Function

namespace taraxacum.pstream

section
variable {C : Nat}

namespace System

/-- What is still going to be written to a stream. -/
def unwritten (s : System C) (fd : buf_read_src) : Bytes :=
  if (s.pipes fd).wopen = true then output fd s.child else []

/-- What is still to be read from it, if it is read to its end. -/
def unread (s : System C) (fd : buf_read_src) : Bytes := (s.pipes fd).buf ++ s.unwritten fd

/-- How much stderr is going to hold when the child first closes a stream, or holds
    if it has closed stderr, as long as nobody reads it. -/
def pent (s : System C) : Nat :=
  (s.pipes .rsrc_err).buf.length + if (s.pipes .rsrc_err).wopen = true then (ahead s.child).length else 0

/-- From a pipe that is closed comes only what is in it. -/
theorem unread_of_closed {s : System C} {fd : buf_read_src} (hclosed : (s.pipes fd).wopen = false) :
    s.unread fd = (s.pipes fd).buf := by
  simp [unread, unwritten, hclosed]

end System

/-- What no step of the child changes: the handler, what there is to read from either
    stream, a pipe that is closed and, while it keeps stdout open, what stderr is to hold. -/
structure ChildKeeps (s t : System C) : Prop where
  shell : t.shell = s.shell
  unread : ∀ fd, t.unread fd = s.unread fd
  closed : ∀ fd, (s.pipes fd).wopen = false → t.pipes fd = s.pipes fd
  pent : (t.pipes .rsrc_out).wopen = true → t.pent = s.pent

/-- A pipe that was closed is not the one that changes. -/
theorem update_closed {pipes : buf_read_src → Pipe C} {fd fd' : buf_read_src} {pipe : Pipe C}
    (hopen : (pipes fd).wopen = true) (hclosed : (pipes fd').wopen = false) :
    update pipes fd pipe fd' = pipes fd' := by
  apply update_of_ne
  rintro rfl
  rw [hopen] at hclosed
  cases hclosed

/-- What a step of the child leaves alone: the handler, and all that will come out of each pipe. -/
theorem ChildStep.keeps {s t : System C} (h : ChildStep s t) : ChildKeeps s t := by
  cases h with
  | @write fd bs child n hchild hopen hpos hle hroom =>
    refine ⟨rfl, fun fd' => ?_, fun fd' => update_closed hopen, fun _ => ?_⟩
    · by_cases hfd : fd = fd'
      · subst hfd
        simp only [System.unread, System.unwritten, update_self, Pipe.buf_write, Pipe.wopen_write,
          hchild, hopen, if_true, output, List.append_assoc]
        rw [← List.append_assoc (bs.take n), List.take_append_drop]
      · simp [System.unread, System.unwritten, hchild, output, hfd, update_of_ne (Ne.symm hfd)]
    · cases fd with
      | rsrc_out => simp [System.pent, hchild, ahead]
      | rsrc_err =>
        simp [System.pent, hchild, hopen, ahead]
        omega
  | @written fd child hchild =>
    refine ⟨rfl, fun fd' => ?_, fun _ _ => rfl, fun _ => ?_⟩
    · simp [System.unread, System.unwritten, hchild, output]
    · cases fd <;> simp [System.pent, hchild, ahead]
  | @refused fd bs child hchild hclosed =>
    refine ⟨rfl, fun fd' => ?_, fun _ _ => rfl, fun hout => ?_⟩
    · by_cases hfd : fd = fd'
      · subst hfd
        simp [System.unread, System.unwritten, hclosed]
      · simp [System.unread, System.unwritten, hchild, output, hfd]
    · cases fd with
      | rsrc_out => simp [hclosed] at hout
      | rsrc_err => simp [System.pent, hclosed]
  | @close fd child hchild =>
    refine ⟨rfl, fun fd' => ?_, fun fd' hclosed => ?_, fun hout => ?_⟩
    · by_cases hfd : fd = fd'
      · subst hfd
        simp [System.unread, System.unwritten, hchild, output]
      · simp [System.unread, System.unwritten, hchild, output, hfd, update_of_ne (Ne.symm hfd)]
    · by_cases hfd : fd' = fd
      · subst hfd
        simp [Pipe.close_of_closed hclosed]
      · simp [hfd]
    · cases fd with
      | rsrc_out => simp at hout
      | rsrc_err => simp [System.pent, hchild, ahead]
  | @exit child hchild =>
    refine ⟨rfl, fun fd => ?_, fun fd hclosed => Pipe.close_of_closed hclosed, fun hout => ?_⟩
    · simp [System.unread, System.unwritten, hchild, output]
    · simp at hout
  | @finish fd hchild hopen =>
    refine ⟨rfl, fun fd => ?_, fun fd hclosed => Pipe.close_of_closed hclosed, fun hout => ?_⟩
    · simp [System.unread, System.unwritten, hchild, output]
    · simp at hout

/-- Where the handler is when the child's output to stdout is `o`. In the first loop
    what it has, what is on the way and what is still to come make up `o`; once it has
    seen the end of stdout the stream is no longer good, so the second loop never reads. -/
def Reader (o : Bytes) (s : System C) : Prop :=
  match s.shell.control with
  | .condition .rsrc_out =>
    s.shell.proc.rsrc_ = .rsrc_out ∧ s.shell.proc.failbit = false ∧
      (s.shell.proc.eofbit = true →
        (s.pipes .rsrc_out).wopen = false ∧ s.shell.proc.gptr = [] ∧ s.unread .rsrc_out = []) ∧
      s.shell.captured.ssout ++ strip (s.shell.proc.gptr ++ s.unread .rsrc_out) = strip o
  | .getline .rsrc_out line =>
    s.shell.proc.rsrc_ = .rsrc_out ∧ s.shell.proc.good = true ∧
      s.shell.captured.ssout ++ line ++ strip (s.shell.proc.gptr ++ s.unread .rsrc_out) = strip o
  | .condition .rsrc_err =>
    s.shell.proc.good = false ∧ (s.pipes .rsrc_out).wopen = false ∧ s.shell.captured.ssout = strip o
  | .getline .rsrc_err _ => False
  | .sent => (s.pipes .rsrc_out).wopen = false ∧ s.shell.captured.ssout = strip o

/-- A child that goes on takes nothing from what the handler will read. -/
theorem Reader.child {o : Bytes} {s t : System C} (h : Reader o s) (hkeeps : ChildKeeps s t) : Reader o t := by
  have hclosed : (s.pipes .rsrc_out).wopen = false → (t.pipes .rsrc_out).wopen = false := by
    intro hout
    rw [hkeeps.closed _ hout, hout]
  unfold Reader at h ⊢
  rw [hkeeps.shell, hkeeps.unread]
  split at h
  · obtain ⟨hrsrc, hfail, heof, htext⟩ := h
    exact ⟨hrsrc, hfail, fun hbit => ⟨hclosed (heof hbit).1, (heof hbit).2⟩, htext⟩
  · exact h
  · exact ⟨h.1, hclosed h.2.1, h.2.2⟩
  · exact h
  · exact ⟨hclosed h.1, h.2⟩

/-- A step of the handler in memory moves octets from the area into its lines, and loses none. -/
theorem Reader.advance {o : Bytes} {s : System C} {shell : Shell} (h : Reader o s)
    (hadvance : s.shell.advance = some shell) : Reader o { s with shell } := by
  obtain ⟨child, pipes, control, proc, captured⟩ := s
  cases control with
  | condition src =>
    cases src with
    | rsrc_out =>
      dsimp only [Reader] at h
      obtain ⟨hrsrc, hfail, heof, htext⟩ := h
      simp only [Shell.advance, Shell.select_rsrc_ hrsrc] at hadvance
      split_ifs at hadvance with hgood
      · obtain rfl := Option.some.inj hadvance
        refine ⟨hrsrc, hgood, ?_⟩
        rw [List.append_nil]
        exact htext
      · obtain rfl := Option.some.inj hadvance
        have hbit : proc.eofbit = true := by
          by_contra hbit
          exact hgood (by simp [basic_ipstream.good, hfail, hbit])
        obtain ⟨hclosed, hgptr, hunread⟩ := heof hbit
        refine ⟨basic_ipstream.good_of_failbit rfl, hclosed, ?_⟩
        rwa [hgptr, hunread, List.append_nil, strip_nil, List.append_nil] at htext
    | rsrc_err =>
      obtain ⟨hgood, hclosed, htext⟩ := h
      simp only [Shell.advance, Shell.select_good] at hadvance
      rw [if_neg (by rw [hgood]; exact Bool.false_ne_true)] at hadvance
      obtain rfl := Option.some.inj hadvance
      exact ⟨hclosed, htext⟩
  | getline src line =>
    cases src with
    | rsrc_out =>
      dsimp only [Reader] at h
      obtain ⟨hrsrc, hgood, htext⟩ := h
      obtain ⟨heofbit, hfail⟩ : proc.eofbit = false ∧ proc.failbit = false := by
        simpa [basic_ipstream.good] using hgood
      simp only [Shell.advance] at hadvance
      split at hadvance
      · cases hadvance
      · rename_i c gptr hgptr
        rw [hgptr, List.cons_append] at htext
        split_ifs at hadvance with hc
        · obtain rfl := Option.some.inj hadvance
          refine ⟨hrsrc, hfail, fun hbit => ?_, ?_⟩
          · exact absurd (heofbit.symm.trans hbit) Bool.false_ne_true
          · rw [hc, strip_newline] at htext
            exact htext
        · obtain rfl := Option.some.inj hadvance
          refine ⟨hrsrc, hgood, ?_⟩
          rw [strip_cons hc] at htext
          rw [← htext]
          simp only [List.append_assoc, List.cons_append, List.nil_append]
          rfl
    | rsrc_err => cases h
  | sent => cases hadvance

/-- The handler waits for its pipe in the first loop only, and with nothing left to scan. -/
theorem Reader.of_reads {o : Bytes} {s : System C} {src : buf_read_src} (h : Reader o s)
    (hreads : s.shell.reads = some src) :
    src = .rsrc_out ∧ s.shell.proc.rsrc_ = .rsrc_out ∧ s.shell.proc.good = true ∧ s.shell.proc.gptr = [] ∧
      ∃ line, s.shell.control = .getline .rsrc_out line ∧
        s.shell.captured.ssout ++ line ++ strip (s.unread .rsrc_out) = strip o := by
  obtain ⟨loop, line, hcontrol, hgptr, hrsrc_⟩ := Shell.reads_eq_some_iff.mp hreads
  cases loop with
  | rsrc_err =>
    rw [Reader, hcontrol] at h
    cases h
  | rsrc_out =>
    rw [Reader, hcontrol] at h
    obtain ⟨hrsrc, hgood, htext⟩ := h
    rw [hgptr, List.nil_append] at htext
    exact ⟨hrsrc_.symm.trans hrsrc, hrsrc, hgood, hgptr, line, hcontrol, htext⟩

/-- A `read` moves octets from the pipe into the area. It is always of stdout: the second loop never
    reads. -/
theorem Reader.read {o : Bytes} {s : System C} {src : buf_read_src} {n : Nat} (h : Reader o s)
    (hreads : s.shell.reads = some src) :
    src = .rsrc_out ∧ Reader o { s with
      pipes := update s.pipes src ((s.pipes src).read n)
      shell := s.shell.filled ((s.pipes src).buf.take n) } := by
  obtain ⟨rfl, hrsrc, hgood, hgptr, line, hcontrol, htext⟩ := h.of_reads hreads
  refine ⟨rfl, ?_⟩
  simp only [Reader, Shell.filled, hcontrol]
  refine ⟨hrsrc, hgood, ?_⟩
  rw [← htext]
  simp only [System.unread, System.unwritten, update_self, Pipe.buf_read, Pipe.wopen_read]
  rw [← List.append_assoc (List.take n _), List.take_append_drop]

/-- The end of stdout ends the first loop with the last line, if there is one. -/
theorem Reader.eof {o : Bytes} {s : System C} {src : buf_read_src} (h : Reader o s)
    (hreads : s.shell.reads = some src) (hempty : (s.pipes src).buf = [])
    (hclosed : (s.pipes src).wopen = false) :
    src = .rsrc_out ∧ Reader o { s with shell := s.shell.atEof } := by
  have hunread : s.unread src = [] := by rw [System.unread_of_closed hclosed, hempty]
  obtain ⟨rfl, hrsrc, hgood, hgptr, line, hcontrol, htext⟩ := h.of_reads hreads
  rw [hunread, strip_nil, List.append_nil] at htext
  refine ⟨rfl, ?_⟩
  simp only [Reader, Shell.atEof, hcontrol]
  split_ifs with hline
  · refine ⟨basic_ipstream.good_of_failbit rfl, hclosed, ?_⟩
    rwa [hline, List.append_nil] at htext
  · have hfail : s.shell.proc.failbit = false := by
      simp only [basic_ipstream.good, Bool.and_eq_true, Bool.not_eq_true'] at hgood
      exact hgood.2
    refine ⟨hrsrc, hfail, fun _ => ⟨hclosed, hgptr, hunread⟩, ?_⟩
    change s.shell.captured.ssout ++ line ++ strip (s.shell.proc.gptr ++ s.unread .rsrc_out) = strip o
    rw [hgptr, hunread, List.nil_append, strip_nil, List.append_nil, htext]

/-- What holds in every state a run of the child `p` gets to. -/
structure Tracks (p : List Action) (s : System C) : Prop where
  reader : Reader (output .rsrc_out p) s
  sserr : s.shell.captured.sserr = []
  pent : (s.pipes .rsrc_out).wopen = true → s.pent = (ahead p).length

/-- The invariant holds at the start. -/
theorem tracks_start (p : List Action) : Tracks p (System.start p : System C) := by
  refine ⟨?_, rfl, fun _ => ?_⟩
  · refine ⟨rfl, rfl, fun hbit => absurd hbit Bool.false_ne_true, ?_⟩
    simp [System.start, Shell.start, basic_ipstream.opened, System.unread, System.unwritten, Pipe.fresh]
  · simp [System.pent, System.start, Pipe.fresh]

/-- A step of the child keeps the invariant. -/
theorem Tracks.child {p : List Action} {s t : System C} (h : Tracks p s) (hstep : ChildStep s t) :
    Tracks p t := by
  have hkeeps := hstep.keeps
  refine ⟨h.reader.child hkeeps, ?_, fun hout => ?_⟩
  · rw [hkeeps.shell]
    exact h.sserr
  · have hopen : (s.pipes .rsrc_out).wopen = true := by
      by_contra hclosed
      rw [Bool.not_eq_true] at hclosed
      rw [hkeeps.closed _ hclosed, hclosed] at hout
      cases hout
    rw [hkeeps.pent hout, h.pent hopen]

/-- The body of the second loop is never run. -/
theorem Reader.sserr_advance {o : Bytes} {s : System C} {shell : Shell} (h : Reader o s)
    (hadvance : s.shell.advance = some shell) : shell.captured.sserr = s.shell.captured.sserr := by
  obtain ⟨child, pipes, control, proc, captured⟩ := s
  cases control with
  | condition src =>
    simp only [Shell.advance] at hadvance
    split_ifs at hadvance <;> cases hadvance <;> rfl
  | getline src line =>
    cases src with
    | rsrc_err => cases h
    | rsrc_out =>
      simp only [Shell.advance] at hadvance
      split at hadvance
      · cases hadvance
      · split_ifs at hadvance <;> cases hadvance <;> rfl
  | sent => cases hadvance

/-- The end of stdout adds nothing to `sserr`. -/
theorem Reader.sserr_atEof {o : Bytes} {s : System C} (h : Reader o s) :
    s.shell.atEof.captured.sserr = s.shell.captured.sserr := by
  obtain ⟨child, pipes, control, proc, captured⟩ := s
  cases control with
  | condition src => rfl
  | getline src line =>
    cases src with
    | rsrc_err => cases h
    | rsrc_out =>
      simp only [Shell.atEof]
      split_ifs <;> rfl
  | sent => rfl

/-- A step of the handler keeps the invariant. -/
theorem Tracks.shell {p : List Action} {s t : System C} (h : Tracks p s) (hstep : ShellStep s t) :
    Tracks p t := by
  cases hstep with
  | advance hadvance =>
    exact ⟨h.reader.advance hadvance, (h.reader.sserr_advance hadvance).trans h.sserr, h.pent⟩
  | @read src n hreads hpos hle hroom =>
    obtain ⟨rfl, hreader⟩ := h.reader.read (n := n) hreads
    refine ⟨hreader, h.sserr, fun hopen => ?_⟩
    exact h.pent (by simpa using hopen)
  | eof hreads hempty hclosed =>
    obtain ⟨rfl, hreader⟩ := h.reader.eof hreads hempty hclosed
    exact ⟨hreader, h.reader.sserr_atEof.trans h.sserr, h.pent⟩

/-- The invariant holds of every state that a handler and its child can reach, in any interleaving.
    -/
theorem tracks_of_reaches {p : List Action} {s : System C} (h : Reaches p s) : Tracks p s :=
  transition.invariant_of_step (fun _ _ htracks hstep => hstep.elim htracks.child htracks.shell)
    (tracks_start p) h

end

end taraxacum.pstream
