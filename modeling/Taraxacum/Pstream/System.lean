import Mathlib.Logic.Function.Basic
import Mathlib.Logic.Relation
import Taraxacum.Pstream.Stream

open json

namespace taraxacum.pstream

/-- A pipe: what has been written and not yet read, never more than its capacity, and
    whether its writing end is open. -/
structure Pipe (C : Nat) where
  buf : Bytes
  wopen : Bool
  bounded : buf.length ≤ C

namespace Pipe

variable {C : Nat}

def fresh : Pipe C := ⟨[], true, Nat.zero_le C⟩

def write (self : Pipe C) (bs : Bytes) (hroom : self.buf.length + bs.length ≤ C) : Pipe C :=
  { self with buf := self.buf ++ bs, bounded := by rwa [List.length_append] }

def read (self : Pipe C) (n : Nat) : Pipe C :=
  { self with buf := self.buf.drop n, bounded := by have := self.bounded; rw [List.length_drop]; omega }

def close (self : Pipe C) : Pipe C := { self with wopen := false }

/-- What is written into a pipe comes after what is in it. -/
@[simp] theorem buf_write (self : Pipe C) (bs : Bytes) (hroom : self.buf.length + bs.length ≤ C) :
    (self.write bs hroom).buf = self.buf ++ bs := rfl

@[simp] theorem wopen_write (self : Pipe C) (bs : Bytes) (hroom : self.buf.length + bs.length ≤ C) :
    (self.write bs hroom).wopen = self.wopen := rfl

/-- What is read of a pipe comes from its front. -/
@[simp] theorem buf_read (self : Pipe C) (n : Nat) : (self.read n).buf = self.buf.drop n := rfl
@[simp] theorem wopen_read (self : Pipe C) (n : Nat) : (self.read n).wopen = self.wopen := rfl
@[simp] theorem buf_close (self : Pipe C) : self.close.buf = self.buf := rfl
@[simp] theorem wopen_close (self : Pipe C) : self.close.wopen = false := rfl

/-- A writing end that is closed stays so. -/
theorem close_of_closed {self : Pipe C} (h : self.wopen = false) : self.close = self := by
  cases self
  cases h
  rfl

end Pipe

/-- What a child does next. After the last action it exits. -/
inductive Action where
  | write (fd : buf_read_src) (bs : Bytes)
  | close (fd : buf_read_src)
  | exit
  deriving DecidableEq

/-- The child with what is left of its actions, the two pipes, and the handler. -/
structure System (C : Nat) where
  child : List Action
  pipes : buf_read_src → Pipe C
  shell : Shell

namespace System

variable {C : Nat}

def start (child : List Action) : System C := { child, pipes := fun _ => .fresh, shell := .start }

/-- There is no child, and nobody will write to the pipes. -/
def unopened : System C := { child := [], pipes := fun _ => Pipe.fresh.close, shell := .unopened }

end System

open Function

/-- A step of the child. A write moves as many octets as it likes while there is room,
    and is blocked on a full pipe; on a descriptor the child has closed it fails. -/
inductive ChildStep {C : Nat} : System C → System C → Prop where
  | write {s : System C} {fd : buf_read_src} {bs : Bytes} {child : List Action} {n : Nat}
      (hchild : s.child = .write fd bs :: child) (hopen : (s.pipes fd).wopen = true) (hpos : 0 < n)
      (hle : n ≤ bs.length) (hroom : (s.pipes fd).buf.length + (bs.take n).length ≤ C) :
      ChildStep s { s with
        child := .write fd (bs.drop n) :: child
        pipes := update s.pipes fd ((s.pipes fd).write (bs.take n) hroom) }
  | written {s : System C} {fd : buf_read_src} {child : List Action}
      (hchild : s.child = .write fd [] :: child) :
      ChildStep s { s with child }
  | refused {s : System C} {fd : buf_read_src} {bs : Bytes} {child : List Action}
      (hchild : s.child = .write fd bs :: child) (hclosed : (s.pipes fd).wopen = false) :
      ChildStep s { s with child }
  | close {s : System C} {fd : buf_read_src} {child : List Action} (hchild : s.child = .close fd :: child) :
      ChildStep s { s with child, pipes := update s.pipes fd (s.pipes fd).close }
  | exit {s : System C} {child : List Action} (hchild : s.child = .exit :: child) :
      ChildStep s { s with child := [], pipes := fun fd => (s.pipes fd).close }
  | finish {s : System C} {fd : buf_read_src} (hchild : s.child = []) (hopen : (s.pipes fd).wopen = true) :
      ChildStep s { s with pipes := fun fd => (s.pipes fd).close }

/-- A step of the handler. A read takes as much as it likes of what is in the pipe, up
    to the room in the buffer, and is blocked on an empty pipe that is open for writing. -/
inductive ShellStep {C : Nat} : System C → System C → Prop where
  | advance {s : System C} {shell : Shell} (hadvance : s.shell.advance = some shell) :
      ShellStep s { s with shell }
  | read {s : System C} {src : buf_read_src} {n : Nat} (hreads : s.shell.reads = some src) (hpos : 0 < n)
      (hle : n ≤ (s.pipes src).buf.length) (hroom : n ≤ bufsz - pbsz) :
      ShellStep s { s with
        pipes := update s.pipes src ((s.pipes src).read n)
        shell := s.shell.filled ((s.pipes src).buf.take n) }
  | eof {s : System C} {src : buf_read_src} (hreads : s.shell.reads = some src)
      (hempty : (s.pipes src).buf = []) (hclosed : (s.pipes src).wopen = false) :
      ShellStep s { s with shell := s.shell.atEof }

/-- One step of either party. -/
def Step {C : Nat} (s t : System C) : Prop := ChildStep s t ∨ ShellStep s t

/-- The states a run gets to from the start of a child. -/
def Reaches {C : Nat} (child : List Action) (s : System C) : Prop :=
  Relation.ReflTransGen Step (System.start child) s

/-- What a list of actions is going to write to a stream that is open. -/
def output (fd : buf_read_src) : List Action → Bytes
  | .write fd' bs :: child => if fd' = fd then bs ++ output fd child else output fd child
  | .close fd' :: child => if fd' = fd then [] else output fd child
  | .exit :: _ | [] => []

/-- What it is going to write to stderr before it closes a stream or exits. -/
def ahead : List Action → Bytes
  | .write .rsrc_err bs :: child => bs ++ ahead child
  | .write .rsrc_out _ :: child => ahead child
  | .close _ :: _ | .exit :: _ | [] => []

end taraxacum.pstream
