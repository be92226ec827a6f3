import Taraxacum.Pstream.Ledger
import Taraxacum.Pstream.System
import Taraxacum.Transition

open json memory program Program Function transition

namespace taraxacum.pstream

/-- A handler with what its stream has read of each of the two pipes. -/
structure Fed where
  shell : Shell
  got : buf_read_src → Bytes

/-- A step of a handler for which the pipes are not looked at: a `read` may give it anything. -/
inductive Move : Fed → Fed → Prop where
  | advance {f : Fed} {shell : Shell} (hadvance : f.shell.advance = some shell) : Move f { f with shell }
  | read {f : Fed} {src : buf_read_src} {chunk : Bytes} (hreads : f.shell.reads = some src)
      (hchunk : chunk ≠ []) (hroom : chunk.length ≤ bufsz - pbsz) :
      Move f ⟨f.shell.filled chunk, update f.got src (f.got src ++ chunk)⟩
  | eof {f : Fed} {src : buf_read_src} (hreads : f.shell.reads = some src) :
      Move f { f with shell := f.shell.atEof }

/-- Beside a child the handler makes the same moves, and has got what has left the pipes. -/
theorem ShellStep.move {C : Nat} {s t : System C} (h : ShellStep s t) (got : buf_read_src → Bytes) :
    ∃ got', Move ⟨s.shell, got⟩ ⟨t.shell, got'⟩ ∧
      ∀ src, got' src ++ (t.pipes src).buf = got src ++ (s.pipes src).buf := by
  cases h with
  | advance hadvance => exact ⟨got, @Move.advance ⟨s.shell, got⟩ _ hadvance, fun _ => rfl⟩
  | eof hreads => exact ⟨got, @Move.eof ⟨s.shell, got⟩ _ hreads, fun _ => rfl⟩
  | @read src n hreads hpos hle hroom =>
    have hlength : ((s.pipes src).buf.take n).length = n := List.length_take_of_le hle
    have hchunk : (s.pipes src).buf.take n ≠ [] := by
      intro hnil
      rw [hnil, List.length_nil] at hlength
      omega
    refine ⟨_, @Move.read ⟨s.shell, got⟩ src _ hreads hchunk (hlength.le.trans hroom), fun src' => ?_⟩
    dsimp only
    by_cases hsrc : src' = src
    · rw [hsrc, update_self, update_self, Pipe.buf_read, List.append_assoc, List.take_append_drop]
    · rw [update_of_ne hsrc, update_of_ne hsrc]

/-- The handler beside its buffer: where it is, the bits of its stream and what it has written. -/
structure Loops where
  control : Control
  eofbit : Bool
  failbit : Bool
  captured : ShellCmd.Captured

namespace Loops

def start : Loops where
  control := .condition .rsrc_out
  eofbit := false
  failbit := false
  captured := ⟨[], []⟩

def good (self : Loops) : Bool := !self.eofbit && !self.failbit

/-- A step of the handler over the buffer in memory: the condition of a loop, or one turn of `getline`. -/
def turn (self : Loops) : Program Process Loops :=
  match self.control with
  | .sent => pure self
  | .condition src => do
    let _ ← basic_pstreambuf.read_err (decide (src = .rsrc_err))
    if self.good then pure { self with control := .getline src [] }
    else pure { self with failbit := true, control := Shell.after src }
  | .getline src line => do
    match ← basic_pstreambuf.sgetc with
    | some c => do
      let _ ← basic_pstreambuf.sbumpc
      if c = newline then
        pure { self with control := .condition src, captured := Shell.append self.captured line src }
      else pure { self with control := .getline src (line ++ [c]) }
    | none =>
      if line = [] then pure { self with eofbit := true, failbit := true, control := Shell.after src }
      else pure { self with
        eofbit := true, control := .condition src, captured := Shell.append self.captured line src }

/-- A turn that comes to its end. -/
def Turns (r s : Loops × Process) : Prop := r.1.turn r.2 = .done s.1 s.2

end Loops

/-- Selecting the other source exchanges the two areas. -/
theorem Shell.select_other {proc : basic_ipstream} {src : buf_read_src} (hsrc : src = proc.rsrc_.other) :
    Shell.select proc src = { proc with gptr := proc.rbufstate_, rbufstate_ := proc.gptr, rsrc_ := src } := by
  subst hsrc
  cases h : proc.rsrc_ <;>
    simp [select, basic_ipstream.out, basic_ipstream.err, basic_ipstream.read_err,
      basic_ipstream.switch_read_buffer, buf_read_src.other, h]

/-- No bit of the stream's state changes when a source is selected. -/
theorem Shell.select_bits (proc : basic_ipstream) (src : buf_read_src) :
    (Shell.select proc src).eofbit = proc.eofbit ∧ (Shell.select proc src).failbit = proc.failbit := by
  rcases proc.rsrc_.eq_or_other src with rfl | hother
  · rw [select_rsrc_ rfl]
    exact ⟨rfl, rfl⟩
  · rw [select_other hother]
    exact ⟨rfl, rfl⟩

namespace Queues

/-- Both sources are open, and what comes next of each is what the stream has left of it. -/
structure Feeds (q : Queues) (proc : basic_ipstream) (got : buf_read_src → Bytes) : Prop where
  source : q.source = proc.rsrc_
  gptr : (q.contents proc.rsrc_).ahead = proc.gptr
  rbufstate : (q.contents proc.rsrc_.other).ahead = proc.rbufstate_
  rpipe : ∀ src, q.rpipe src ≠ none
  received : ∀ src fd, q.rpipe src = some fd → q.received fd = got src

section
variable {q q' : Queues} {proc : basic_ipstream} {got : buf_read_src → Bytes}

/-- What comes next is what the stream has in its area. -/
theorem Feeds.active (hq : q.Feeds proc got) : q.active.ahead = proc.gptr := by
  rw [Queues.active, hq.source]
  exact hq.gptr

/-- Changing the source exchanges the areas of the stream as `read_err` does those of the buffer. -/
theorem Feeds.select (hq : q.Feeds proc got) (src : buf_read_src) :
    Queues.Feeds { q with source := src } (Shell.select proc src) got := by
  obtain ⟨hsource, hgptr, hrbufstate, hrpipe, hreceived⟩ := hq
  rcases proc.rsrc_.eq_or_other src with rfl | hother
  · rw [Shell.select_rsrc_ rfl]
    exact ⟨rfl, hgptr, hrbufstate, hrpipe, hreceived⟩
  · have hback : src.other = proc.rsrc_ := by rw [hother, buf_read_src.other_other]
    rw [Shell.select_other hother]
    refine ⟨rfl, ?_, ?_, hrpipe, hreceived⟩
    · exact hother ▸ hrbufstate
    · exact (congrArg (fun src => (q.contents src).ahead) hback).trans hgptr

/-- What comes next is at hand, or a `read` has given it with what follows. -/
theorem Feeds.peeks (hq : q.Feeds proc got) (hdistinct : q.Distinct) {c : UInt8}
    (hpeeks : q.Peeks (some c) q') :
    ∃ gptr, proc.gptr = c :: gptr ∧ q'.Feeds proc got ∨
      proc.gptr = [] ∧ (c :: gptr).length ≤ bufsz - pbsz ∧
      q'.Feeds { proc with gptr := c :: gptr } (update got proc.rsrc_ (got proc.rsrc_ ++ c :: gptr)) := by
  cases hpeeks with
  | @ahead _ gptr hahead => exact ⟨gptr, .inl ⟨hq.active.symm.trans hahead, hq⟩⟩
  | @filled _ _ gptr hahead hfills hnext =>
    refine ⟨gptr, .inr ⟨hq.active.symm.trans hahead, ?_⟩⟩
    cases hfills with
    | @filled fd data hfd hlength hdata =>
      obtain rfl : data = c :: gptr := by
        rw [active_fill] at hnext
        exact hnext
      obtain ⟨hsource, hgptr, hrbufstate, hrpipe, hreceived⟩ := hq
      refine ⟨hlength, hsource, ?_, ?_, hrpipe, fun src fd' hfd' => ?_⟩
      · change (update q.contents q.source _ proc.rsrc_).ahead = _
        rw [hsource, update_self]
      · change (update q.contents q.source _ proc.rsrc_.other).ahead = _
        rw [hsource, update_of_ne proc.rsrc_.other_ne]
        exact hrbufstate
      · change update q.received fd _ fd' = _
        rcases q.source.eq_or_other src with rfl | rfl
        · obtain rfl := Option.some.inj (hfd.symm.trans hfd')
          rw [hsource, update_self, update_self, hreceived _ _ (hsource ▸ hfd)]
        · have hne : fd' ≠ fd := fun heq => hdistinct fd hfd (heq ▸ hfd')
          rw [update_of_ne hne, hsource, update_of_ne proc.rsrc_.other_ne]
          exact hreceived _ _ (hsource ▸ hfd')

/-- The end of the octets leaves the stream with an empty area. -/
theorem Feeds.eof (hq : q.Feeds proc got) (hpeeks : q.Peeks none q') : proc.gptr = [] ∧ q'.Feeds proc got := by
  cases hpeeks with
  | eof hahead hfills =>
    have hgptr := hq.active.symm.trans hahead
    cases hfills with
    | failed =>
      obtain ⟨hsource, -, hrbufstate, hrpipe, hreceived⟩ := hq
      refine ⟨hgptr, hsource, ?_, ?_, hrpipe, hreceived⟩
      · change (update q.contents q.source _ proc.rsrc_).ahead = _
        rw [hsource, update_self, hgptr]
        rfl
      · change (update q.contents q.source _ proc.rsrc_.other).ahead = _
        rw [hsource, update_of_ne proc.rsrc_.other_ne]
        exact hrbufstate

/-- What is at hand is taken without a `read`. -/
theorem Feeds.takes {c : UInt8} {gptr : Bytes} (hq : q.Feeds proc got) (hgptr : proc.gptr = c :: gptr)
    {r : int_type}
    (htakes : q.Takes r q') : q'.Feeds { proc with gptr } got := by
  have hahead := hq.active.trans hgptr
  cases htakes with
  | taken hpeeks =>
    cases hpeeks with
    | ahead hahead' =>
      rw [pass_eq hahead]
      obtain ⟨hsource, -, hrbufstate, hrpipe, hreceived⟩ := hq
      refine ⟨hsource, ?_, ?_, hrpipe, hreceived⟩
      · change (update q.contents q.source _ proc.rsrc_).ahead = _
        rw [hsource, update_self]
      · change (update q.contents q.source _ proc.rsrc_.other).ahead = _
        rw [hsource, update_of_ne proc.rsrc_.other_ne]
        exact hrbufstate
    | filled hnone =>
      rw [hahead] at hnone
      cases hnone
  | eof hpeeks =>
    cases hpeeks with
    | eof hnone =>
      rw [hahead] at hnone
      cases hnone

end

end Queues

/-- What the loops have of the handler. -/
def Shell.loops (self : Shell) : Loops := ⟨self.control, self.proc.eofbit, self.proc.failbit, self.captured⟩

/-- A handler over octets and the one over the buffer in memory are at the same place. -/
structure Sees (f : Fed) (r : Loops) (s : Process) : Prop where
  loops : r = f.shell.loops
  readable : s.Readable
  feeds : ∃ contents pending, s.Sound contents pending ∧ (s.queues contents pending).Feeds f.shell.proc f.got

section
variable {f : Fed} {r : Loops} {s : Process}

open Queues

/-- What `turn` keeps: the handler over octets can follow it. -/
def Followed (f : Fed) (r : Loops) (s : Process) : Prop := ∃ f', Relation.ReflTransGen Move f f' ∧ Sees f' r s

/-- The condition of a loop selects the source and looks at the bits, as the handler over octets
    does. -/
theorem turn_condition {src : buf_read_src} (hsees : Sees f r s) (hcontrol : f.shell.control = .condition src) :
    wp r.turn (Followed f) s := by
  obtain ⟨rfl, hreadable, contents, pending, hs, hfeeds⟩ := hsees
  have hgood : (Shell.select f.shell.proc src).good = f.shell.loops.good := Shell.select_good _ _
  obtain ⟨heof, hfail⟩ := Shell.select_bits f.shell.proc src
  rw [Loops.turn, show f.shell.loops.control = .condition src from hcontrol]
  dsimp only
  rw [wp_bind]
  refine wp_mono ?_ (basic_pstreambuf.read_err_spec hs hreadable (decide (src = .rsrc_err)))
  rintro b t ⟨hreadable', contents', pending', hs', hstep⟩
  have hselected : (t.queues contents' pending').Feeds (Shell.select f.shell.proc src) f.got := by
    have hsource : (if decide (src = .rsrc_err) = true then buf_read_src.rsrc_err else .rsrc_out) = src := by
      cases src <;> rfl
    generalize hq : t.queues contents' pending' = q' at hstep ⊢
    cases hstep with
    | switched hsrc hpipe =>
      rw [hsrc, hsource]
      exact hfeeds.select src
    | not_switched hpipe => exact absurd hpipe (hfeeds.rpipe _)
  refine wp_ite (fun hg => ?_) fun hg => ?_
  · have hmove : f.shell.advance = some { f.shell with
        proc := Shell.select f.shell.proc src, control := .getline src [] } := by
      simp only [Shell.advance, hcontrol, hgood, hg, if_true]
    rw [wp_pure]
    refine ⟨_, .single (.advance hmove), ?_, hreadable', contents', pending', hs', hselected⟩
    rw [Shell.loops, Shell.loops, heof, hfail]
  · have hmove : f.shell.advance = some { f.shell with
        proc := { Shell.select f.shell.proc src with failbit := true }, control := Shell.after src } := by
      simp only [Shell.advance, hcontrol, hgood, if_neg hg]
    rw [wp_pure]
    obtain ⟨hsource, hgptr, hrbufstate, hrpipe, hreceived⟩ := hselected
    refine ⟨_, .single (.advance hmove), ?_, hreadable', contents', pending', hs',
      hsource, hgptr, hrbufstate, hrpipe, hreceived⟩
    rw [Shell.loops, Shell.loops, heof]

/-- The end of a turn for which there was an octet. -/
theorem wp_octet {src : buf_read_src} {line gptr : Bytes} {c : UInt8}
    (hcontrol : f.shell.control = .getline src line)
    (hgptr : f.shell.proc.gptr = c :: gptr) (hreadable : s.Readable) {contents : buf_read_src → Contents}
    {pending : Bytes} (hs : s.Sound contents pending)
    (hfeeds : (s.queues contents pending).Feeds { f.shell.proc with gptr } f.got) :
    wp (if c = newline then pure { f.shell.loops with
        control := .condition src, captured := Shell.append f.shell.loops.captured line src }
      else pure { f.shell.loops with control := .getline src (line ++ [c]) }) (Followed f) s := by
  refine wp_ite (fun hc => ?_) fun hc => ?_
  · have hmove : f.shell.advance = some (Shell.mk (.condition src) { f.shell.proc with gptr }
        (Shell.append f.shell.captured line src)) := by
      simp only [Shell.advance, hcontrol, hgptr, if_pos hc]
    rw [wp_pure]
    exact ⟨_, .single (.advance hmove), rfl, hreadable, contents, pending, hs, hfeeds⟩
  · have hmove : f.shell.advance = some { f.shell with
        proc := { f.shell.proc with gptr }, control := .getline src (line ++ [c]) } := by
      simp only [Shell.advance, hcontrol, hgptr, if_neg hc]
    rw [wp_pure]
    exact ⟨_, .single (.advance hmove), rfl, hreadable, contents, pending, hs, hfeeds⟩

/-- The end of a turn for which there was none. -/
theorem wp_eof {src : buf_read_src} {line : Bytes} (hcontrol : f.shell.control = .getline src line)
    (hgptr : f.shell.proc.gptr = []) (hreadable : s.Readable) {contents : buf_read_src → Contents}
    {pending : Bytes}
    (hs : s.Sound contents pending) (hfeeds : (s.queues contents pending).Feeds f.shell.proc f.got) :
    wp (if line = [] then pure { f.shell.loops with
        eofbit := true, failbit := true, control := Shell.after src }
      else pure { f.shell.loops with
        eofbit := true, control := .condition src
        captured := Shell.append f.shell.loops.captured line src }) (Followed f) s := by
  have hreads : f.shell.reads = some f.shell.proc.rsrc_ :=
    Shell.reads_eq_some_iff.mpr ⟨src, line, hcontrol, hgptr, rfl⟩
  obtain ⟨hsource, hahead, hrbufstate, hrpipe, hreceived⟩ := hfeeds
  refine wp_ite (fun hline => ?_) fun hline => ?_
  · have heof : f.shell.atEof = { f.shell with
        proc := { f.shell.proc with eofbit := true, failbit := true }, control := Shell.after src } := by
      simp only [Shell.atEof, hcontrol, if_pos hline]
    rw [wp_pure]
    refine ⟨_, .single (.eof hreads), ?_, hreadable, contents, pending, hs, ?_⟩
    · rw [heof]
      rfl
    · rw [heof]
      exact ⟨hsource, hahead, hrbufstate, hrpipe, hreceived⟩
  · have heof : f.shell.atEof = Shell.mk (.condition src) { f.shell.proc with eofbit := true }
        (Shell.append f.shell.captured line src) := by
      simp only [Shell.atEof, hcontrol, if_neg hline]
    rw [wp_pure]
    refine ⟨_, .single (.eof hreads), ?_, hreadable, contents, pending, hs, ?_⟩
    · rw [heof]
      rfl
    · rw [heof]
      exact ⟨hsource, hahead, hrbufstate, hrpipe, hreceived⟩

/-- A turn of `getline` takes an octet that is at hand or has come with a `read`, or finds the end.
    -/
theorem turn_getline {src : buf_read_src} {line : Bytes} (hsees : Sees f r s)
    (hcontrol : f.shell.control = .getline src line) : wp r.turn (Followed f) s := by
  obtain ⟨rfl, hreadable, contents, pending, hs, hfeeds⟩ := hsees
  rw [Loops.turn, show f.shell.loops.control = .getline src line from hcontrol]
  dsimp only
  rw [wp_bind]
  refine wp_mono ?_ (basic_pstreambuf.sgetc_spec hs hreadable)
  rintro (_ | c) t ⟨hreadable', contents', hs', hpeeks⟩
  · obtain ⟨hgptr, hfeeds'⟩ := hfeeds.eof hpeeks
    exact wp_eof hcontrol hgptr hreadable' hs' hfeeds'
  · dsimp only
    rw [wp_bind]
    refine wp_mono ?_ (basic_pstreambuf.sbumpc_spec hs' hreadable')
    rintro d u ⟨hreadable'', contents'', hs'', htakes⟩
    obtain ⟨gptr, ⟨hgptr, hfeeds'⟩ | ⟨hgptr, hroom, hfeeds'⟩⟩ := hfeeds.peeks hs.distinct hpeeks
    · exact wp_octet hcontrol hgptr hreadable'' hs'' (hfeeds'.takes hgptr htakes)
    · have hreads : f.shell.reads = some f.shell.proc.rsrc_ :=
        Shell.reads_eq_some_iff.mpr ⟨src, line, hcontrol, hgptr, rfl⟩
      have hmove := Move.read hreads (List.cons_ne_nil c gptr) hroom
      let filled : Fed := ⟨f.shell.filled (c :: gptr),
        update f.got f.shell.proc.rsrc_ (f.got f.shell.proc.rsrc_ ++ c :: gptr)⟩
      have hoctet := wp_octet (f := filled) hcontrol rfl hreadable'' hs'' (hfeeds'.takes rfl htakes)
      refine wp_mono ?_ hoctet
      rintro r' v ⟨f', hmoves, hsees⟩
      exact ⟨f', .head hmove hmoves, hsees⟩

/-- No turn of the handler over the buffer in memory goes wrong, and the handler over octets makes
    the same moves. -/
theorem turn_spec (hsees : Sees f r s) : wp r.turn (Followed f) s := by
  cases hcontrol : f.shell.control with
  | condition src => exact turn_condition hsees hcontrol
  | getline src line => exact turn_getline hsees hcontrol
  | sent =>
    rw [Loops.turn, hsees.loops, show f.shell.loops.control = .sent from hcontrol, wp_pure, ← hsees.loops]
    exact ⟨f, .refl, hsees⟩

end

/-- A stream that has just been opened over a buffer that was never used, and that has both sources. -/
theorem opened_sees {k : Kernel} {mode : pmode} {t : Process} (hout : mode.pstdout = true)
    (hopen : perform (.openCommand mode) (started k) = .done (.flag true) t)
    (hpipes : ∀ src, t.buf.rpipe_ src ≠ none) :
    Sees ⟨.start, fun _ => []⟩ .start t := by
  have hc := started_closed k
  have hready : Ready (.openCommand mode) (started k) := .inr ⟨hc.empty, fun _ _ => rfl⟩
  obtain ⟨⟨hreadable, contents, pending, hs, hstep⟩, -⟩ :=
    of_wp_of_done (perform_spec hc.sound hc.readable hready) hopen
  refine ⟨rfl, hreadable, contents, pending, hs, ?_⟩
  change ∀ src, (t.queues contents pending).rpipe src ≠ none at hpipes
  generalize t.queues contents pending = q at hstep hpipes ⊢
  cases hstep with
  | openCommand hopens =>
    cases hopens with
    | opened hfresh hclosed hwpipe hrpipe hstdin hsource =>
      refine ⟨?_, rfl, rfl, hpipes, fun _ _ _ => rfl⟩
      rw [hsource, hout]
      rfl

/-- Whatever the system gives, what the handler does over the buffer in memory it does over octets,
    and they are those that have come through the pipes. -/
theorem loops_follow {k : Kernel} {mode : pmode} {t u : Process} {r : Loops} (hout : mode.pstdout = true)
    (hopen : perform (.openCommand mode) (started k) = .done (.flag true) t)
    (hpipes : ∀ src, t.buf.rpipe_ src ≠ none)
    (hturns : Relation.ReflTransGen Loops.Turns (.start, t) (r, u)) :
    ∃ f, Relation.ReflTransGen Move ⟨.start, fun _ => []⟩ f ∧ r = f.shell.loops ∧
      ∀ src fd, u.buf.rpipe_ src = some fd → u.kernel.received fd = f.got src := by
  obtain ⟨f, hmoves, hsees⟩ := follows_of_step (R := fun (x : Loops × Process) f => Sees f x.1 x.2)
    (fun x y f hsees hturn => of_wp_of_done (turn_spec hsees) hturn) (opened_sees hout hopen hpipes) hturns
  obtain ⟨contents, pending, -, hfeeds⟩ := hsees.feeds
  exact ⟨f, hmoves, hsees.loops, hfeeds.received⟩

end taraxacum.pstream
