import Mathlib.Logic.Function.Basic
import Taraxacum.Pstream.Buffer

open json Function

namespace taraxacum.pstream

/-- What can be done with a `basic_pstreambuf` from outside. -/
inductive Op where
  | openCommand (mode : pmode)
  | openFile (mode : pmode)
  | close
  | kill
  | killpg
  | peof
  | read_err (readerr : Bool)
  | exited
  | sgetc
  | sbumpc
  | sgetn (n : Nat)
  | sungetc
  | sputbackc (c : UInt8)
  | in_avail
  | sputc (c : UInt8)
  | sputn (s : Bytes)
  | pubsync
  deriving DecidableEq

/-- What an operation returns. -/
inductive Ret where
  | flag (b : Bool)
  | octet (c : int_type)
  | octets (s : Bytes)
  | count (n : Int)
  | nothing
  deriving DecidableEq

open basic_pstreambuf in
def perform : Op → program.Program Process Ret
  | .openCommand mode => .flag <$> openCommand mode
  | .openFile mode => .flag <$> openFile mode
  | .close => .flag <$> close
  | .kill => .flag <$> kill
  | .killpg => .flag <$> killpg
  | .peof => (fun _ => .nothing) <$> peof
  | .read_err readerr => .flag <$> read_err readerr
  | .exited => .flag <$> exited
  | .sgetc => .octet <$> sgetc
  | .sbumpc => .octet <$> sbumpc
  | .sgetn n => .octets <$> sgetn n
  | .sungetc => .octet <$> sungetc
  | .sputbackc c => .octet <$> sputbackc c
  | .in_avail => .count <$> in_avail
  | .sputc c => .octet <$> sputc c
  | .sputn s => (fun n => .count (n : Nat)) <$> xsputn s
  | .pubsync => .flag <$> sync

/-- What has been read of a source and not been given up: what could be put back, and what comes next. -/
structure Contents where
  before : Bytes
  ahead : Bytes

def Contents.none : Contents := ⟨[], []⟩

/-- What a `basic_pstreambuf` is for: a queue of octets from each of the child's two streams, of
    which some can be put back, one to the child, and what has gone through the pipes. -/
structure Queues where
  source : buf_read_src
  contents : buf_read_src → Contents
  pending : Bytes
  wpipe : fd_type
  rpipe : buf_read_src → fd_type
  written : Nat → Bytes
  received : Nat → Bytes
  fresh : Nat

namespace Queues

/-- The contents of the source that is read. -/
def active (q : Queues) : Contents := q.contents q.source

def setActive (q : Queues) (c : Contents) : Queues := { q with contents := update q.contents q.source c }

/-- More octets have come from the pipe, and no more than two can be put back. -/
def fill (q : Queues) (fd : Nat) (data : Bytes) : Queues :=
  { q.setActive ⟨q.active.before.drop (q.active.before.length - pbsz), data⟩ with
    received := update q.received fd (q.received fd ++ data) }

/-- A filled area has the last octets read before it, and after them what has come. -/
@[simp] theorem active_fill (q : Queues) (fd : Nat) (data : Bytes) :
    (q.fill fd data).active = ⟨q.active.before.drop (q.active.before.length - pbsz), data⟩ := update_self _ _ _

/-- One octet is passed. -/
def pass (q : Queues) : Queues :=
  match q.active.ahead with
  | [] => q
  | c :: ahead => q.setActive ⟨q.active.before ++ [c], ahead⟩

/-- Going on by one octet. -/
theorem pass_eq {q : Queues} {c : UInt8} {ahead : Bytes} (hahead : q.active.ahead = c :: ahead) :
    q.pass = q.setActive ⟨q.active.before ++ [c], ahead⟩ := by
  simp only [Queues.pass, hahead]

/-- The end of what can be written. -/
def ended (q : Queues) : Queues := { q with pending := [], wpipe := none }

def closed (q : Queues) : Queues :=
  { q.ended with contents := fun _ => .none, rpipe := fun _ => none }

/-- More octets come from the pipe. Or none come, and none can be put back. -/
inductive Fills (q : Queues) (non_blocking : Bool) : Bool → Queues → Prop where
  | filled {fd : Nat} {data : Bytes} (hfd : q.rpipe q.source = some fd) (hlength : data.length ≤ bufsz - pbsz)
      (hdata : non_blocking = false → data ≠ []) :
      Fills q non_blocking true (q.fill fd data)
  | failed : Fills q non_blocking false (q.setActive .none)

/-- What comes next is looked at, after a read if nothing is there. -/
inductive Peeks (q : Queues) : int_type → Queues → Prop where
  | ahead {c : UInt8} {cs : Bytes} (hahead : q.active.ahead = c :: cs) : Peeks q (some c) q
  | filled {q' : Queues} {c : UInt8} {cs : Bytes} (hahead : q.active.ahead = [])
      (hfills : Fills q false true q') (hnext : q'.active.ahead = c :: cs) : Peeks q (some c) q'
  | eof {q' : Queues} (hahead : q.active.ahead = []) (hfills : Fills q false false q') : Peeks q none q'

/-- A fill that may wait brings at least one octet if it succeeds. -/
theorem Fills.ahead_ne {q q' : Queues} {non_blocking : Bool} (hfills : Fills q non_blocking true q')
    (hblocking : non_blocking = false) : q'.active.ahead ≠ [] := by
  obtain ⟨hfd, hlength, hdata⟩ := hfills
  rw [active_fill]
  exact hdata hblocking

/-- The octet that was looked at is the next one. -/
theorem Peeks.ahead_eq {q q' : Queues} {c : UInt8} (hpeeks : Peeks q (some c) q') :
    ∃ cs, q'.active.ahead = c :: cs := by
  cases hpeeks with
  | ahead hahead => exact ⟨_, hahead⟩
  | filled hahead hfills hnext => exact ⟨_, hnext⟩

/-- What comes next is taken. -/
inductive Takes (q : Queues) : int_type → Queues → Prop where
  | taken {c : UInt8} {q' : Queues} (hpeeks : Peeks q (some c) q') : Takes q (some c) q'.pass
  | eof {q' : Queues} (hpeeks : Peeks q none q') : Takes q none q'

/-- Octets are taken one after the other, up to the first that is not there. -/
inductive TakesAll : Queues → Bytes → Queues → Prop where
  | done {q : Queues} : TakesAll q [] q
  | eof {q q' : Queues} (htakes : Takes q none q') : TakesAll q [] q'
  | more {q q₁ q' : Queues} {c : UInt8} {cs : Bytes} (htakes : Takes q (some c) q₁)
      (hrest : TakesAll q₁ cs q') :
      TakesAll q (c :: cs) q'

/-- Some of what is pending is written, or nothing is. -/
inductive Empties (q : Queues) : Bool → Queues → Prop where
  | written {fd : Nat} {bs rest : Bytes} (hfd : q.wpipe = some fd) (hpending : q.pending = bs ++ rest)
      (hbs : bs ≠ []) :
      Empties q true { q with pending := rest, written := update q.written fd (q.written fd ++ bs) }
  | nothing : Empties q false q

/-- One octet is taken to be written, or it is not. -/
inductive Puts (q : Queues) (c : UInt8) : int_type → Queues → Prop where
  | room : Puts q c (some c) { q with pending := q.pending ++ [c] }
  | emptied {q' : Queues} (hempties : Empties q true q') :
      Puts q c (some c) { q' with pending := q'.pending ++ [c] }
  | full : Puts q c none q

/-- A beginning of `s` is taken to be written, with writes in between. -/
inductive PutsAll : Queues → Bytes → Nat → Queues → Prop where
  | stopped {q : Queues} {s : Bytes} : PutsAll q s 0 q
  | room {q q' : Queues} {s s' : Bytes} {n : Nat}
      (hrest : PutsAll { q with pending := q.pending ++ s } s' n q') :
      PutsAll q (s ++ s') (s.length + n) q'
  | emptied {q q₁ q' : Queues} {s : Bytes} {n : Nat} (hempties : Empties q true q₁)
      (hrest : PutsAll q₁ s n q') :
      PutsAll q s n q'

/-- It is looked whether the child has exited. -/
inductive Notices (q : Queues) : Bool → Queues → Prop where
  | same (b : Bool) : Notices q b q
  | exited : Notices q true q.ended

inductive Syncs (q : Queues) : Bool → Queues → Prop where
  | exited {q' : Queues} (hnotices : Notices q true q') : Syncs q false q'
  | running {q' : Queues} {ok : Bool} (hempties : Empties q ok q') : Syncs q ok q'

/-- From closed queues to ones with new pipes, if all goes well. -/
inductive Opens (q : Queues) (mode : pmode) : Bool → Queues → Prop where
  | not_opened {fresh : Nat} (hfresh : q.fresh ≤ fresh) : Opens q mode false { q with fresh }
  | opened {fresh : Nat} {source : buf_read_src} {wpipe : fd_type} {rpipe : buf_read_src → fd_type}
      (hfresh : q.fresh ≤ fresh) (hclosed : q.closed = q) (hwpipe : ∀ fd, wpipe = some fd → q.fresh ≤ fd)
      (hrpipe : ∀ src fd, rpipe src = some fd → q.fresh ≤ fd) (hstdin : mode.pstdin = false → wpipe = none)
      (hsource : source = if mode.pstdout then .rsrc_out else if mode.pstderr then .rsrc_err else q.source) :
      Opens q mode true { q with source, wpipe, rpipe, fresh }

/-- What each operation does to the queues. -/
inductive Step (q : Queues) : Op → Ret → Queues → Prop where
  | openCommand {mode : pmode} {b : Bool} {q' : Queues} (hopens : Opens q mode b q') :
      Step q (.openCommand mode) (.flag b) q'
  | not_openFile {mode : pmode} : Step q (.openFile mode) (.flag false) q
  | close {q' : Queues} {ok b : Bool} (hsyncs : Syncs q ok q') : Step q .close (.flag b) q'.closed
  | kill {b : Bool} : Step q .kill (.flag b) q
  | killpg {b : Bool} : Step q .killpg (.flag b) q
  | peof {q' : Queues} {ok : Bool} (hsyncs : Syncs q ok q') : Step q .peof .nothing q'.ended
  | switched {readerr : Bool} {src : buf_read_src} (hsrc : src = if readerr then .rsrc_err else .rsrc_out)
      (hpipe : q.rpipe src ≠ none) : Step q (.read_err readerr) (.flag true) { q with source := src }
  | not_switched {readerr : Bool} (hpipe : q.rpipe (if readerr then .rsrc_err else .rsrc_out) = none) :
      Step q (.read_err readerr) (.flag false) q
  | exited {b : Bool} {q' : Queues} (hnotices : Notices q b q') : Step q .exited (.flag b) q'
  | sgetc {c : int_type} {q' : Queues} (hpeeks : Peeks q c q') : Step q .sgetc (.octet c) q'
  | sbumpc {c : int_type} {q' : Queues} (htakes : Takes q c q') : Step q .sbumpc (.octet c) q'
  | sgetn {n : Nat} {s : Bytes} {q' : Queues} (htakes : TakesAll q s q') (hlength : s.length ≤ n) :
      Step q (.sgetn n) (.octets s) q'
  | sungetc {before : Bytes} {c : UInt8} (hbefore : q.active.before = before ++ [c]) :
      Step q .sungetc (.octet (some c)) (q.setActive ⟨before, c :: q.active.ahead⟩)
  | not_sungetc (hbefore : q.active.before = []) : Step q .sungetc (.octet none) q
  | sputbackc {before : Bytes} {c d : UInt8} (hbefore : q.active.before = before ++ [d]) :
      Step q (.sputbackc c) (.octet (some c)) (q.setActive ⟨before, c :: q.active.ahead⟩)
  | not_sputbackc {c : UInt8} (hbefore : q.active.before = []) : Step q (.sputbackc c) (.octet none) q
  | available (hahead : q.active.ahead ≠ []) : Step q .in_avail (.count q.active.ahead.length) q
  | filled {q' : Queues} (hahead : q.active.ahead = []) (hfills : Fills q true true q') :
      Step q .in_avail (.count q'.active.ahead.length) q'
  | not_filled {q' : Queues} (hahead : q.active.ahead = []) (hfills : Fills q true false q') :
      Step q .in_avail (.count (-1)) q'
  | sputc {c : UInt8} {r : int_type} {q' : Queues} (hputs : Puts q c r q') : Step q (.sputc c) (.octet r) q'
  | sputn {s : Bytes} {n : Nat} {q' : Queues} (hputs : PutsAll q s n q') : Step q (.sputn s) (.count n) q'
  | pubsync {b : Bool} {q' : Queues} (hsyncs : Syncs q b q') : Step q .pubsync (.flag b) q'

end Queues

end taraxacum.pstream
