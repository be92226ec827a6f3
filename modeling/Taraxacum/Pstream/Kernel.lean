import Taraxacum.Memory
import Taraxacum.Program
import Taraxacum.Pstream.Stream

open json memory program Program

namespace taraxacum.pstream

/-- A file descriptor, or -1, of which nothing is asked but that it is no descriptor. -/
abbrev fd_type := Option Nat

def EPERM : Int := 1
def EINTR : Int := 4
def EBADF : Int := 9
def EAGAIN : Int := 11

/-- Three pointers of a get area: its begin, what comes next, and its end. -/
structure Area where
  eback : Pointer
  gptr : Pointer
  egptr : Pointer
  deriving DecidableEq

def Area.NULL : Area := ⟨.null, .null, .null⟩

/-- A `basic_pstreambuf`, with the areas of its base class. -/
structure basic_pstreambuf where
  ppid_ : Int
  wpipe_ : fd_type
  rpipe_ : buf_read_src → fd_type
  wbuffer_ : Pointer
  rbuffer_ : buf_read_src → Pointer
  rbufstate_ : Area
  rsrc_ : buf_read_src
  status_ : Int
  error_ : Int
  area : Area
  pbase : Pointer
  pptr : Pointer
  epptr : Pointer

/-- The system a process runs on: its descriptors, what has gone through each of them, and what it
    will answer to each of its calls, an `errno` or a value. The answer to `::close` is one for
    each descriptor, since no number is used twice. -/
structure Kernel where
  fds : List Nat
  fresh : Nat
  written : Nat → Bytes
  received : Nat → Bytes
  pipes : List (Except Int Unit)
  forks : List (Except Int Nat)
  waits : List (Except Int (Option Int))
  reads : List (Except Int Bytes)
  writes : List (Except Int Nat)
  fcntls : List (Except Int Bool)
  kills : List (Except Int Unit)
  getpgids : List (Except Int Int)
  closes : Nat → Except Int Unit
  getpgrp : Int

structure Process where
  heap : Heap UInt8
  kernel : Kernel
  buf : basic_pstreambuf

namespace Process

/-- The answer to a call: the first of those to come. -/
def next {α : Type} (answers : Kernel → List α) (rest : Kernel → List α → Kernel) : Program Process α := do
  let s ← state
  match answers s.kernel with
  | [] => wait
  | a :: as => do
    change fun s => { s with kernel := rest s.kernel as }
    pure a

def self : Program Process basic_pstreambuf := do
  let s ← state
  pure s.buf

def update (f : basic_pstreambuf → basic_pstreambuf) : Program Process Unit :=
  change fun s => { s with buf := f s.buf }

def new (n : Nat) : Program Process Pointer := do
  let s ← state
  change fun s => { s with heap := (s.heap.new n).2 }
  pure (s.heap.new n).1

/-- Turns the heap into another, if it can be done. -/
def onHeap (f : Heap UInt8 → Option (Heap UInt8)) : Program Process Unit := do
  let s ← state
  let heap ← ofOption (f s.heap)
  change fun s => { s with heap }

def delete (p : Pointer) : Program Process Unit := onHeap fun h => h.delete p
def store (p : Pointer) (c : UInt8) : Program Process Unit := onHeap fun h => h.store p c
def stores (p : Pointer) (cs : Bytes) : Program Process Unit := onHeap fun h => h.stores p cs
def move (dst src : Pointer) (n : Nat) : Program Process Unit := onHeap fun h => h.move dst src n

def load (p : Pointer) : Program Process UInt8 := do
  let s ← state
  ofOption (s.heap.load p)

/-- `q - p`. No code of this class takes the difference of pointers that stand the other way round. -/
def distance (p q : Pointer) : Program Process Nat := ofOption (p.distance q)

section
variable {s : Process}

/-- The system may answer anything, `EINTR` and failures included, or nothing ever. -/
theorem wp_next {α : Type} {answers : Kernel → List α} {rest : Kernel → List α → Kernel}
    {Q : α → Process → Prop}
    (hQ : ∀ a as, Q a { s with kernel := rest s.kernel as }) : wp (next answers rest) Q s := by
  rw [next, wp_bind, wp_state]
  split
  · exact wp_wait
  · exact hQ _ _

/-- Reading the members of the buffer changes nothing. -/
@[simp] theorem wp_self {Q : basic_pstreambuf → Process → Prop} : wp self Q s ↔ Q s.buf s := Iff.rfl

/-- Changing the members of the buffer changes nothing else. -/
@[simp] theorem wp_update {f : basic_pstreambuf → basic_pstreambuf} {Q : Unit → Process → Prop} :
    wp (update f) Q s ↔ Q () { s with buf := f s.buf } := Iff.rfl

/-- `new[]` gives an array that is live from now on. -/
@[simp] theorem wp_new {n : Nat} {Q : Pointer → Process → Prop} :
    wp (new n) Q s ↔ Q (s.heap.new n).1 { s with heap := (s.heap.new n).2 } := Iff.rfl

/-- A change of the heap that does not go wrong. -/
theorem wp_onHeap {f : Heap UInt8 → Option (Heap UInt8)} {h' : Heap UInt8} {Q : Unit → Process → Prop}
    (hf : f s.heap = some h') (hQ : Q () { s with heap := h' }) : wp (onHeap f) Q s := by
  rw [onHeap, wp_bind, wp_state, wp_bind]
  exact wp_ofOption hf hQ

/-- An octet that was stored may be loaded. -/
theorem wp_load {p : Pointer} {c : UInt8} {Q : UInt8 → Process → Prop} (hload : s.heap.load p = some c)
    (hQ : Q c s) :
    wp (load p) Q s := by
  rw [load, wp_bind, wp_state]
  exact wp_ofOption hload hQ

/-- Two pointers into one array have a distance. -/
theorem wp_distance {p q : Pointer} {n : Nat} {Q : Nat → Process → Prop} (hn : p.distance q = some n)
    (hQ : Q n s) :
    wp (distance p q) Q s := wp_ofOption hn hQ

end

end Process

namespace Kernel

open Process

/-- The calls of the system. A descriptor is used only as long as it is open, and the numbers of
    new ones are not used again. -/
def pipe : Program Process (Except Int (Nat × Nat)) := do
  match ← next Kernel.pipes fun k pipes => { k with pipes } with
  | .error errno => pure (.error errno)
  | .ok () => do
    let s ← state
    let r := s.kernel.fresh
    change fun s => { s with kernel := { s.kernel with fds := r :: (r + 1) :: s.kernel.fds, fresh := r + 2 } }
    pure (.ok (r, r + 1))

/-- A descriptor that cannot be closed stays open. -/
def close (fd : Nat) : Program Process (Except Int Unit) := do
  let s ← state
  if fd ∈ s.kernel.fds then do
    match s.kernel.closes fd with
    | .error errno => pure (.error errno)
    | .ok () => do
      change fun s => { s with kernel := { s.kernel with fds := s.kernel.fds.erase fd } }
      pure (.ok ())
  else fault

/-- In the parent. The child replaces its program, and is not followed. -/
def fork : Program Process (Except Int Nat) := next Kernel.forks fun k forks => { k with forks }

def not_exited : Except Int (Option Int) → Bool
  | .ok none => true
  | _ => false

/-- The status of the child if it has exited. Without `nohang` the call waits until it has. -/
def waitpid (nohang : Bool) : Program Process (Except Int (Option Int)) :=
  next (fun k => if nohang then k.waits else k.waits.dropWhile not_exited) fun k waits => { k with waits }

def fcntl (fd : fd_type) : Program Process (Except Int Bool) := do
  match fd with
  | none => pure (.error EBADF)
  | some fd => do
    let s ← state
    if fd ∈ s.kernel.fds then next Kernel.fcntls fun k fcntls => { k with fcntls } else fault

/-- A `read` of no more than `n` octets. -/
def receive (fd n : Nat) : Program Process (Except Int Bytes) := do
  let s ← state
  if fd ∈ s.kernel.fds then do
    match ← next Kernel.reads fun k reads => { k with reads } with
    | .error errno => pure (.error errno)
    | .ok bs => do
      change fun s => { s with kernel := { s.kernel with
        received := Function.update s.kernel.received fd (s.kernel.received fd ++ bs.take n) } }
      pure (.ok (bs.take n))
  else fault

/-- A `read` into what `p` points to. -/
def read (fd : Nat) (p : Pointer) (n : Nat) : Program Process (Except Int Nat) := do
  match ← receive fd n with
  | .error errno => pure (.error errno)
  | .ok bs => do
    stores p bs
    pure (.ok bs.length)

/-- Writes no more than the `n` octets `p` points to. -/
def write (fd : Nat) (p : Pointer) (n : Nat) : Program Process (Except Int Nat) := do
  let s ← state
  if fd ∈ s.kernel.fds then do
    let bs ← ofOption (s.heap.loads p n)
    match ← next Kernel.writes fun k writes => { k with writes } with
    | .error errno => pure (.error errno)
    | .ok k => do
      change fun s => { s with kernel := { s.kernel with
        written := Function.update s.kernel.written fd (s.kernel.written fd ++ bs.take k) } }
      pure (.ok (bs.take k).length)
  else fault

def kill : Program Process (Except Int Unit) := next Kernel.kills fun k kills => { k with kills }
def getpgid : Program Process (Except Int Int) := next Kernel.getpgids fun k getpgids => { k with getpgids }

section
variable {s : Process} {fd n : Nat}

/-- `pipe` fails, or gives two descriptors that were never used. -/
theorem wp_pipe {Q : Except Int (Nat × Nat) → Process → Prop}
    (herror : ∀ errno pipes, Q (.error errno) { s with kernel := { s.kernel with pipes } })
    (hok : ∀ pipes, Q (.ok (s.kernel.fresh, s.kernel.fresh + 1)) { s with kernel := { s.kernel with
      pipes, fds := s.kernel.fresh :: (s.kernel.fresh + 1) :: s.kernel.fds, fresh := s.kernel.fresh + 2 } }) :
    wp pipe Q s := by
  rw [pipe, wp_bind]
  apply wp_next
  rintro (errno | ⟨⟩) pipes
  · exact herror errno pipes
  · exact hok pipes

/-- `close` needs an open descriptor. If the system closes it, the descriptor is gone. -/
theorem wp_close {Q : Except Int Unit → Process → Prop} (hfd : fd ∈ s.kernel.fds)
    (hcloses : s.kernel.closes fd = .ok ())
    (hQ : Q (.ok ()) { s with kernel := { s.kernel with fds := s.kernel.fds.erase fd } }) :
      wp (close fd) Q s := by
  rw [close, wp_bind, wp_state, if_pos hfd, hcloses]
  exact hQ

/-- `fcntl` on no descriptor is an error of its own, and changes nothing. -/
theorem wp_fcntl {Q : Except Int Bool → Process → Prop} {fd : fd_type}
    (hfd : ∀ n, fd = some n → n ∈ s.kernel.fds)
    (hnone : fd = none → Q (.error EBADF) s)
    (hQ : ∀ r fcntls, Q r { s with kernel := { s.kernel with fcntls } }) :
    wp (fcntl fd) Q s := by
  cases fd with
  | none => exact hnone rfl
  | some n =>
    rw [fcntl, wp_bind, wp_state, if_pos (hfd n rfl)]
    exact wp_next hQ

/-- What `read` brings counts as received from that descriptor. -/
theorem wp_receive {Q : Except Int Bytes → Process → Prop} (hfd : fd ∈ s.kernel.fds)
    (herror : ∀ errno reads, Q (.error errno) { s with kernel := { s.kernel with reads } })
    (hok : ∀ bs reads, bs.length ≤ n → Q (.ok bs) { s with kernel := { s.kernel with
      reads, received := Function.update s.kernel.received fd (s.kernel.received fd ++ bs) } }) :
    wp (receive fd n) Q s := by
  rw [receive, wp_bind, wp_state, if_pos hfd, wp_bind]
  apply wp_next
  rintro (errno | bs) reads
  · exact herror errno reads
  · exact hok (bs.take n) reads (List.length_take_le n bs)

/-- `read` needs room for what it may store, and stores nowhere else. -/
theorem wp_read {Q : Except Int Nat → Process → Prop} {b i m : Nat} (hfd : fd ∈ s.kernel.fds)
    (hlive : s.heap.Live b m) (hroom : i + n ≤ m)
    (herror : ∀ errno reads, Q (.error errno) { s with kernel := { s.kernel with reads } })
    (hok : ∀ bs reads heap, bs.length ≤ n → Heap.Stored s.heap heap (.into b i) bs → Q (.ok bs.length)
      { s with heap, kernel := { s.kernel with
        reads, received := Function.update s.kernel.received fd (s.kernel.received fd ++ bs) } }) :
    wp (read fd (.into b i) n) Q s := by
  rw [read, wp_bind]
  refine wp_receive hfd herror fun bs reads hbs => ?_
  obtain ⟨heap, hstores, hstored⟩ := Heap.stores_into hlive (show i + bs.length ≤ m by omega)
  rw [wp_bind]
  exact wp_onHeap hstores (hok bs reads heap hbs hstored)

/-- `write` needs octets to send. What it takes of them counts as written, and it may take fewer. -/
theorem wp_write {Q : Except Int Nat → Process → Prop} {b i : Nat} {bs : Bytes} (hfd : fd ∈ s.kernel.fds)
    (hbs : s.heap.Holds (.into b i) bs)
    (herror : ∀ errno writes, Q (.error errno) { s with kernel := { s.kernel with writes } })
    (hok : ∀ k writes, Q (.ok (bs.take k).length) { s with kernel := { s.kernel with
      writes, written := Function.update s.kernel.written fd (s.kernel.written fd ++ bs.take k) } }) :
    wp (write fd (.into b i) bs.length) Q s := by
  rw [write, wp_bind, wp_state, if_pos hfd, wp_bind]
  refine wp_ofOption hbs.loads ?_
  rw [wp_bind]
  apply wp_next
  rintro (errno | k) writes
  · exact herror errno writes
  · exact hok k writes

end

end Kernel

end taraxacum.pstream
