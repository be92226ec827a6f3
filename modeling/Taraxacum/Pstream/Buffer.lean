import Taraxacum.Pstream.Kernel

open json memory program Program

namespace taraxacum.pstream

/-- The `pmode` of an `open`: which of the child's streams are connected. `newpg` concerns the child. -/
structure pmode where
  pstdin : Bool
  pstdout : Bool
  pstderr : Bool
  deriving DecidableEq

/-- `Traits::int_type`, with `none` for `eof()`. -/
abbrev int_type := Option UInt8

def not_eof (c : int_type) : int_type := some (c.getD 0)

def buf_read_src.other : buf_read_src → buf_read_src
  | .rsrc_out => .rsrc_err
  | .rsrc_err => .rsrc_out

namespace basic_pstreambuf

open Process

/-- The buffer as its constructors make it, before they open it. -/
def constructed : basic_pstreambuf where
  ppid_ := -1
  wpipe_ := none
  rpipe_ _ := none
  wbuffer_ := .null
  rbuffer_ _ := .null
  rbufstate_ := .NULL
  rsrc_ := .rsrc_out
  status_ := -1
  error_ := 0
  area := .NULL
  pbase := .null
  pptr := .null
  epptr := .null

def is_open (self : basic_pstreambuf) : Bool := 0 < self.ppid_

def setg (area : Area) : Program Process Unit := update fun buf => { buf with area }

def setp (pbase epptr : Pointer) : Program Process Unit :=
  update fun buf => { buf with pbase, pptr := pbase, epptr }

def pbump (pptr : Pointer) : Program Process Unit := update fun buf => { buf with pptr }

def gbump (gptr : Pointer) : Program Process Unit :=
  update fun buf => { buf with area := { buf.area with gptr } }

def set_error (error_ : Int) : Program Process Unit := update fun buf => { buf with error_ }

/-- What is left in `fd`: a descriptor that could not be closed is kept. -/
def close_fd (fd : fd_type) : Program Process fd_type := do
  match fd with
  | none => pure none
  | some n => do
    match ← Kernel.close n with
    | .ok () => pure none
    | .error _ => pure fd

def close_wpipe : Program Process Unit := do
  let buf ← self
  let wpipe_ ← close_fd buf.wpipe_
  update fun buf => { buf with wpipe_ }

/-- `close_fd_array(rpipe_)`. -/
def close_rpipes : Program Process Unit := do
  let buf ← self
  let out ← close_fd (buf.rpipe_ .rsrc_out)
  let err ← close_fd (buf.rpipe_ .rsrc_err)
  update fun buf => { buf with
    rpipe_ := Function.update (Function.update buf.rpipe_ .rsrc_out out) .rsrc_err err }

def read (s : Pointer) (n : Nat) : Program Process Int := do
  let buf ← self
  match buf.rpipe_ buf.rsrc_ with
  | none => pure 0
  | some fd => do
    match ← Kernel.read fd s n with
    | .error errno => do
      set_error errno
      pure (-1)
    | .ok nread => pure nread

def write (s : Pointer) (n : Nat) : Program Process Int := do
  let buf ← self
  match buf.wpipe_ with
  | none => pure 0
  | some fd => do
    match ← Kernel.write fd s n with
    | .error errno => do
      set_error errno
      pure (-1)
    | .ok nwritten => pure nwritten

/-- The read of `fill_buffer` that does not block. -/
def read_nonblocking (s : Pointer) (n : Nat) : Program Process Int := do
  let buf ← self
  match ← Kernel.fcntl (buf.rpipe_ buf.rsrc_) with
  | .error _ => pure (-1)
  | .ok _ => do
    set_error 0
    let rc ← read s n
    let buf ← self
    -- nothing there yet is no failure here, and the end of the pipe is one
    pure (if rc = -1 ∧ buf.error_ = EAGAIN then 0 else if rc = 0 then -1 else rc)

def fetch (non_blocking : Bool) (s : Pointer) (n : Nat) : Program Process Int :=
  if non_blocking then read_nonblocking s n else read s n

def fill_buffer (non_blocking : Bool) : Program Process Bool := do
  let buf ← self
  let pb1 ← distance buf.area.eback buf.area.gptr
  let npb := min pb1 pbsz
  let rbuf := buf.rbuffer_ buf.rsrc_
  when (npb != 0) (move ((rbuf.add pbsz).sub npb) (buf.area.gptr.sub npb) npb)
  let rc ← fetch non_blocking (rbuf.add pbsz) (bufsz - pbsz)
  if 0 < rc ∨ rc = 0 ∧ non_blocking = true then do
    setg ⟨(rbuf.add pbsz).sub npb, rbuf.add pbsz, (rbuf.add pbsz).add rc.toNat⟩
    pure true
  else do
    setg .NULL
    pure false

/-- `gptr() < egptr()`. -/
def available : Program Process Nat := do
  let buf ← self
  distance buf.area.gptr buf.area.egptr

/-- `gptr() < egptr() || fill_buffer()`. -/
def has_next : Program Process Bool := do
  let n ← available
  if n ≠ 0 then pure true else fill_buffer false

def underflow : Program Process int_type := do
  if ← has_next then do
    let buf ← self
    let c ← load buf.area.gptr
    pure (some c)
  else pure none

def pbackfail (c : int_type) : Program Process int_type := do
  let buf ← self
  if buf.area.gptr ≠ buf.area.eback then do
    gbump (buf.area.gptr.sub 1)
    match c with
    | none => pure (not_eof c)
    | some c => do
      store (buf.area.gptr.sub 1) c
      pure (some c)
  else pure none

def showmanyc : Program Process Int := do
  if ← fill_buffer true then do
    let n ← available
    pure n
  else pure (-1)

def empty_buffer : Program Process Bool := do
  let buf ← self
  let count ← distance buf.pbase buf.pptr
  if 0 < count then do
    let written ← write buf.wbuffer_ count
    if 0 < written then do
      let unwritten := count - written.toNat
      when (unwritten != 0) (move buf.pbase (buf.pbase.add written.toNat) unwritten)
      pbump (buf.pptr.sub written.toNat)
      pure true
    else pure false
  else pure false

/-- `sputc`, with what it does without room. -/
def put (overflow : UInt8 → Program Process int_type) (c : UInt8) : Program Process int_type := do
  let buf ← self
  let room ← distance buf.pptr buf.epptr
  if 0 < room then do
    store buf.pptr c
    pbump (buf.pptr.add 1)
    pure (some c)
  else overflow c

/-- One turn of the loop in `xsputn`, with what is left of `s`: how much more is done, or `none` at its end. -/
def xsputn_turn (s : Bytes) (done : Nat) : Program Process (Nat ⊕ Nat) := do
  if done < s.length then do
    let buf ← self
    let room ← distance buf.pptr buf.epptr
    if room ≠ 0 then do
      let nbuf := min room (s.length - done)
      stores buf.pptr ((s.drop done).take nbuf)
      pbump (buf.pptr.add nbuf)
      pure (.inl (done + nbuf))
    else do
      if ← empty_buffer then pure (.inl done) else pure (.inr done)
  else pure (.inr done)

/-- How much of `s` is taken. A turn either takes octets or makes room for some. -/
def xsputn (s : Bytes) : Program Process Nat := iterate (xsputn_turn s) (2 * s.length + 2) 0

/-- `overflow`, which calls `sputc`, which calls it again where it has made no room. -/
def overflow : Nat → int_type → Program Process int_type
  | 0, _ => fault
  | depth + 1, c => do
    if ← empty_buffer then
      match c with
      | some c => put (fun c => overflow depth (some c)) c
      | none => pure (not_eof none)
    else pure none

def destroy_wbuffer : Program Process Unit := do
  setp .null .null
  let buf ← self
  delete buf.wbuffer_
  update fun buf => { buf with wbuffer_ := .null }

def destroy_rbuffer (src : buf_read_src) : Program Process Unit := do
  let buf ← self
  when (buf.rsrc_ == src) (setg .NULL)
  delete (buf.rbuffer_ src)
  update fun buf => { buf with rbuffer_ := Function.update buf.rbuffer_ src .null }

def destroy_buffers (mode : pmode) : Program Process Unit := do
  when mode.pstdin destroy_wbuffer
  when mode.pstdout (destroy_rbuffer .rsrc_out)
  when mode.pstderr (destroy_rbuffer .rsrc_err)

def create_wbuffer : Program Process Unit := do
  let buf ← self
  delete buf.wbuffer_
  let wbuffer_ ← new bufsz
  update fun buf => { buf with wbuffer_ }
  setp wbuffer_ (wbuffer_.add bufsz)

def create_rbuffer (src : buf_read_src) (active : Bool) : Program Process Unit := do
  let buf ← self
  delete (buf.rbuffer_ src)
  let rbuffer ← new bufsz
  update fun buf => { buf with rbuffer_ := Function.update buf.rbuffer_ src rbuffer }
  when active (do
    update fun buf => { buf with rsrc_ := src }
    setg ⟨rbuffer.add pbsz, rbuffer.add pbsz, rbuffer.add pbsz⟩)

def create_buffers (mode : pmode) : Program Process Unit := do
  when mode.pstdin create_wbuffer
  when mode.pstdout (create_rbuffer .rsrc_out true)
  when mode.pstderr (create_rbuffer .rsrc_err !mode.pstdout)

def switch_read_buffer (src : buf_read_src) : Program Process Unit := do
  let buf ← self
  when (buf.rsrc_ != src) (update fun buf =>
    { buf with area := buf.rbufstate_, rbufstate_ := buf.area, rsrc_ := src })

def read_err (readerr : Bool) : Program Process Bool := do
  let src := if readerr then buf_read_src.rsrc_err else .rsrc_out
  let buf ← self
  match buf.rpipe_ src with
  | some _ => do
    switch_read_buffer src
    pure true
  | none => pure false

/-- `1` once the child has exited, `0` if it has not and is not waited for, `-1` if there is none or on
    an error. -/
def wait (nohang : Bool) : Program Process Int := do
  let buf ← self
  if buf.is_open then do
    match ← Kernel.waitpid nohang with
    | .ok none => pure 0
    | .error errno => do
      set_error errno
      pure (-1)
    | .ok (some status_) => do
      update fun buf => { buf with ppid_ := 0, status_ }
      destroy_buffers ⟨true, false, false⟩
      close_wpipe
      pure 1
  else pure (-1)

def exited : Program Process Bool := do
  let buf ← self
  if buf.ppid_ = 0 then pure true
  else do
    let child_exited ← wait true
    pure (decide (child_exited = 1))

/-- Whether `sync` returns 0. -/
def sync : Program Process Bool := do
  if ← exited then pure false else empty_buffer

def peof : Program Process Unit := do
  let _ ← sync
  destroy_buffers ⟨true, false, false⟩
  close_wpipe

/-- One turn of the loop in `close`. -/
def reap (_ : Unit) : Program Process (Unit ⊕ Unit) := do
  set_error 0
  let waited ← wait false
  let buf ← self
  pure (if waited = -1 ∧ buf.error_ = EINTR then .inl () else .inr ())

/-- Whether `close` returns the buffer. -/
def close : Program Process Bool := do
  let buf ← self
  let running := buf.is_open
  let _ ← sync
  destroy_buffers ⟨true, true, true⟩
  close_wpipe
  close_rpipes
  let s ← state
  -- each turn that is followed by another has had an answer
  iterate reap (s.kernel.waits.length + 1) ()
  pure running

/-- The end of `kill` and of `killpg`, which return the buffer if the signal could be sent. -/
def signalled : Program Process Bool := do
  match ← Kernel.kill with
  | .error errno => do
    set_error errno
    pure false
  | .ok () => pure true

def kill : Program Process Bool := do
  let buf ← self
  if buf.is_open then signalled else pure false

def killpg : Program Process Bool := do
  let buf ← self
  if buf.is_open then do
    match ← Kernel.getpgid with
    | .error errno => do
      set_error errno
      pure false
    | .ok pgid => do
      let s ← state
      if pgid = s.kernel.getpgrp then do
        set_error EPERM
        pure false
      else signalled
  else pure false

/-- One of the pipes `fork` makes, unless there has been an error. -/
def make_pipe (wanted : Bool) : Program Process (Option (Nat × Nat)) := do
  let buf ← self
  if buf.error_ = 0 ∧ wanted = true then do
    match ← Kernel.pipe with
    | .error errno => do
      set_error errno
      pure none
    | .ok ends => pure (some ends)
  else pure none

/-- Both ends of a pipe, if it has been made. -/
def close_ends : Option (Nat × Nat) → Program Process Unit
  | none => pure ()
  | some (rd, wr) => do
    let _ ← Kernel.close rd
    let _ ← Kernel.close wr
    pure ()

/-- One end of a pipe is kept, and the other closed. -/
def keep_writing : Option (Nat × Nat) → Program Process Unit
  | none => pure ()
  | some (rd, wr) => do
    update fun buf => { buf with wpipe_ := some wr }
    let _ ← Kernel.close rd
    pure ()

def keep_reading (src : buf_read_src) : Option (Nat × Nat) → Program Process Unit
  | none => pure ()
  | some (rd, wr) => do
    update fun buf => { buf with rpipe_ := Function.update buf.rpipe_ src (some rd) }
    let _ ← Kernel.close wr
    pure ()

/-- `fork` in the parent: whether there is a child. -/
def fork (mode : pmode) : Program Process Bool := do
  let pin ← make_pipe mode.pstdin
  let pout ← make_pipe mode.pstdout
  let perr ← make_pipe mode.pstderr
  let buf ← self
  if buf.error_ = 0 then do
    match ← Kernel.fork with
    | .error errno => do
      set_error errno
      close_ends pin
      close_ends pout
      close_ends perr
      pure false
    | .ok pid => do
      update fun buf => { buf with ppid_ := pid + 1 }
      keep_writing pin
      keep_reading .rsrc_out pout
      keep_reading .rsrc_err perr
      pure true
  else do
    close_ends pin
    close_ends pout
    close_ends perr
    pure false

/-- `open` of a command: whether it returns the buffer. -/
def openCommand (mode : pmode) : Program Process Bool := do
  let buf ← self
  if buf.is_open then pure false
  else do
    if ← fork mode then do
      create_buffers mode
      pure true
    else pure false

/-- An `int` as it lies in memory. -/
def int_of (bs : Bytes) : Int := Int.bmod (bs.foldr (fun b n => b.toNat + 256 * n) 0 : Nat) 4294967296

/-- What the parent learns from the pipe `rd` of a child it has forked. -/
def check_exec (mode : pmode) (rd : Nat) : Program Process Bool := do
  match ← Kernel.receive rd 4 with
  | .ok [] => do
    create_buffers mode
    pure true
  | .error errno => do
    set_error errno
    pure false
  | .ok (b :: bs) => do
    set_error (int_of (b :: bs))
    let _ ← wait false
    pure false

/-- The rest of `open` of a file, with the pipe on which the child tells what it could not execute. -/
def execute (mode : pmode) (rd wr : Nat) : Program Process Bool := do
  if ← fork mode then do
    let _ ← Kernel.close wr
    let opened ← check_exec mode rd
    let _ ← Kernel.close rd
    pure opened
  else do
    close_ends (some (rd, wr))
    pure false

/-- A call of `fcntl` for each end of the pipe, and whether both went well. -/
def close_on_exec (rd wr : Nat) : Program Process Bool := do
  match ← Kernel.fcntl (some rd) with
  | .error errno => do
    set_error errno
    pure false
  | .ok _ =>
    match ← Kernel.fcntl (some wr) with
    | .error errno => do
      set_error errno
      pure false
    | .ok _ => pure true

/-- `open` of a file: whether it returns the buffer. -/
def openFile (mode : pmode) : Program Process Bool := do
  let buf ← self
  if buf.is_open then pure false
  else do
    match ← Kernel.pipe with
    | .error errno => do
      set_error errno
      pure false
    | .ok (rd, wr) => do
      if ← close_on_exec rd wr then execute mode rd wr
      else do
        close_ends (some (rd, wr))
        pure false

/- The public interface, which `std::basic_streambuf` gives. -/

def sgetc : Program Process int_type := do
  let n ← available
  if n ≠ 0 then do
    let buf ← self
    let c ← load buf.area.gptr
    pure (some c)
  else underflow

/-- `sbumpc`. What `uflow` does is to look at the next octet and to pass it. -/
def sbumpc : Program Process int_type := do
  match ← sgetc with
  | none => pure none
  | some c => do
    let buf ← self
    gbump (buf.area.gptr.add 1)
    pure (some c)

/-- `sgetn`: what as many calls of `sbumpc` give, up to the first that gives none. -/
def sgetn : Nat → Program Process Bytes
  | 0 => pure []
  | n + 1 => do
    match ← sbumpc with
    | none => pure []
    | some c => do
      let cs ← sgetn n
      pure (c :: cs)

def sungetc : Program Process int_type := do
  let buf ← self
  let n ← distance buf.area.eback buf.area.gptr
  if n ≠ 0 then do
    gbump (buf.area.gptr.sub 1)
    let c ← load (buf.area.gptr.sub 1)
    pure (some c)
  else pbackfail none

def sputbackc (c : UInt8) : Program Process int_type := do
  let buf ← self
  let n ← distance buf.area.eback buf.area.gptr
  if n ≠ 0 then do
    let last ← load (buf.area.gptr.sub 1)
    if last = c then do
      gbump (buf.area.gptr.sub 1)
      pure (some c)
    else pbackfail (some c)
  else pbackfail (some c)

def in_avail : Program Process Int := do
  let n ← available
  if n ≠ 0 then pure n else showmanyc

def sputc (c : UInt8) : Program Process int_type := put (fun c => overflow 2 (some c)) c

end basic_pstreambuf

end taraxacum.pstream
