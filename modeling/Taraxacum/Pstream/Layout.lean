import Taraxacum.Pstream.Queues

open json memory program Program Function

namespace taraxacum.pstream

/-- The put area and what is in it. -/
def Pending (h : Heap UInt8) (buf : basic_pstreambuf) (pending : Bytes) : Prop :=
  (buf.wbuffer_ = .null ∧ buf.pbase = .null ∧ buf.pptr = .null ∧ buf.epptr = .null ∧ pending = []) ∨
  ∃ b, buf.wbuffer_ = .into b 0 ∧ buf.pbase = .into b 0 ∧ buf.pptr = .into b pending.length ∧
    buf.epptr = .into b bufsz ∧ pending.length ≤ bufsz ∧ h.Live b bufsz ∧ h.Holds (.into b 0) pending

/-- A get area in its buffer, and what is in it. -/
def Shows (h : Heap UInt8) (rbuffer : Pointer) (area : Area) (c : Contents) : Prop :=
  (area = .NULL ∧ c = .none) ∨
  ∃ b i, rbuffer = .into b 0 ∧
    area = ⟨.into b i, .into b (i + c.before.length), .into b (i + c.before.length + c.ahead.length)⟩ ∧
    i + c.before.length + c.ahead.length ≤ bufsz ∧ h.Holds (.into b i) (c.before ++ c.ahead)

/-- An array for a buffer, or none. -/
def Allocated (h : Heap UInt8) (p : Pointer) : Prop := p = .null ∨ ∃ b, p = .into b 0 ∧ h.Live b bufsz

/-- How a buffer lies in memory. What was put by for a source that is not open is not looked at. -/
structure Layout (h : Heap UInt8) (buf : basic_pstreambuf) (contents : buf_read_src → Contents)
    (pending : Bytes) :
    Prop where
  pending : Pending h buf pending
  shows : Shows h (buf.rbuffer_ buf.rsrc_) buf.area (contents buf.rsrc_)
  saved : buf.rpipe_ buf.rsrc_.other ≠ none →
    Shows h (buf.rbuffer_ buf.rsrc_.other) buf.rbufstate_ (contents buf.rsrc_.other)
  unopened : ∀ src, buf.rpipe_ src = none → contents src = .none
  allocated : ∀ src, Allocated h (buf.rbuffer_ src)
  apart : ∀ src, buf.wbuffer_ = buf.rbuffer_ src → buf.wbuffer_ = .null
  apart_rbuffers : buf.rbuffer_ .rsrc_out = buf.rbuffer_ .rsrc_err → buf.rbuffer_ .rsrc_out = .null
  owned : ∀ b n, h.Live b n → .into b 0 = buf.wbuffer_ ∨ ∃ src, .into b 0 = buf.rbuffer_ src

/-- The descriptors a buffer holds. -/
def basic_pstreambuf.held (buf : basic_pstreambuf) : List Nat :=
  buf.wpipe_.toList ++ ((buf.rpipe_ .rsrc_out).toList ++ (buf.rpipe_ .rsrc_err).toList)

/-- The open descriptors are those the buffer holds and `others`, each once, and each can be closed. -/
structure Descriptors (k : Kernel) (buf : basic_pstreambuf) (others : List Nat) : Prop where
  perm : k.fds.Perm (others ++ buf.held)
  nodup : k.fds.Nodup
  below : ∀ fd ∈ k.fds, fd < k.fresh
  unwritten : ∀ fd, k.fresh ≤ fd → k.written fd = []
  unread : ∀ fd, k.fresh ≤ fd → k.received fd = []
  closes : ∀ fd, k.closes fd = .ok ()

/-- All is in order with the process and its one buffer. -/
structure Process.Sound (s : Process) (contents : buf_read_src → Contents) (pending : Bytes) : Prop where
  layout : Layout s.heap s.buf contents pending
  descriptors : Descriptors s.kernel s.buf []
  idle : s.buf.ppid_ ≤ 0 → s.buf.wpipe_ = none

def Process.queues (s : Process) (contents : buf_read_src → Contents) (pending : Bytes) : Queues where
  source := s.buf.rsrc_
  contents
  pending
  wpipe := s.buf.wpipe_
  rpipe := s.buf.rpipe_
  written := s.kernel.written
  received := s.kernel.received
  fresh := s.kernel.fresh

/-- The other source is another one. -/
theorem buf_read_src.other_ne (src : buf_read_src) : src.other ≠ src := by
  cases src <;> exact fun h => by cases h

/-- There are two sources. -/
theorem buf_read_src.eq_or_other (src src' : buf_read_src) : src' = src ∨ src' = src.other := by
  cases src <;> cases src' <;> simp [buf_read_src.other]

@[simp] theorem buf_read_src.other_other (src : buf_read_src) : src.other.other = src := by cases src <;> rfl

section
variable {h h' : Heap UInt8} {buf buf' : basic_pstreambuf} {contents : buf_read_src → Contents}
    {pending : Bytes}

/-- What stands in the put area stays there while its array and its pointers do. -/
theorem Pending.frame (hp : Pending h buf pending) (hsame : Heap.Same h h' buf.wbuffer_)
    (hw : buf'.wbuffer_ = buf.wbuffer_) (hbase : buf'.pbase = buf.pbase) (hptr : buf'.pptr = buf.pptr)
    (hend : buf'.epptr = buf.epptr) : Pending h' buf' pending := by
  unfold Pending
  rw [hw, hbase, hptr, hend]
  rcases hp with hnull | ⟨b, hb, hbase, hptr, hend, hroom, hlive, hholds⟩
  · exact .inl hnull
  · rw [hb] at hsame
    exact .inr ⟨b, hb, hbase, hptr, hend, hroom, hsame.live hlive, hsame.holds hholds⟩

/-- What an area of a source shows stays while its array does. -/
theorem Shows.frame {rbuffer : Pointer} {area : Area} {c : Contents} (hs : Shows h rbuffer area c)
    (hsame : Heap.Same h h' rbuffer) : Shows h' rbuffer area c := by
  rcases hs with hnull | ⟨b, i, hb, harea, hroom, hholds⟩
  · exact .inl hnull
  · rw [hb] at hsame
    exact .inr ⟨b, i, hb, harea, hroom, hsame.holds hholds⟩

theorem Allocated.frame {p : Pointer} (hp : Allocated h p) (hsame : Heap.Same h h' p) : Allocated h' p := by
  rcases hp with hnull | ⟨b, rfl, hlive⟩
  · exact .inl hnull
  · exact .inr ⟨b, rfl, hsame.live hlive⟩

theorem Shows.none (rbuffer : Pointer) : Shows h rbuffer .NULL .none := .inl ⟨rfl, rfl⟩

/-- The two distances in a get area. -/
theorem Shows.distances {rbuffer : Pointer} {area : Area} {c : Contents} (hs : Shows h rbuffer area c) :
    area.eback.distance area.gptr = some c.before.length ∧
      area.gptr.distance area.egptr = some c.ahead.length := by
  rcases hs with ⟨rfl, rfl⟩ | ⟨b, i, -, rfl, -, -⟩
  · exact ⟨rfl, rfl⟩
  · exact ⟨Pointer.distance_into b i _, Pointer.distance_into b _ _⟩

/-- The put area has as much before its pointer as stands in it, and after it what its array has
    room for. -/
theorem Pending.distances (hp : Pending h buf pending) : buf.pbase.distance buf.pptr = some pending.length ∧
    ∃ room, buf.pptr.distance buf.epptr = some room ∧ (room ≠ 0 → pending.length + room = bufsz) := by
  rcases hp with ⟨-, hbase, hptr, hend, rfl⟩ | ⟨b, -, hbase, hptr, hend, hroom, -, -⟩ <;> rw [hbase, hptr, hend]
  · exact ⟨rfl, 0, rfl, fun h => absurd rfl h⟩
  · have hbegin := Pointer.distance_into b 0 pending.length
    rw [Nat.zero_add] at hbegin
    have hrest := Pointer.distance_into b pending.length (bufsz - pending.length)
    rw [Nat.add_sub_cancel' hroom] at hrest
    exact ⟨hbegin, _, hrest, fun _ => Nat.add_sub_cancel' hroom⟩

/-- The buffers of two sources are not one array. -/
theorem Layout.apart_other (hl : Layout h buf contents pending) {b : Nat} {src : buf_read_src}
    (hb : buf.rbuffer_ src = .into b 0) : ∀ j, buf.rbuffer_ src.other ≠ .into b j := by
  intro j hother
  have hj : j = 0 := by
    rcases hl.allocated src.other with hnull | ⟨c, hc, -⟩
    · rw [hnull] at hother
      cases hother
    · rw [hc, Pointer.into.injEq] at hother
      exact hother.2.symm
  subst hj
  have hsame : buf.rbuffer_ .rsrc_out = buf.rbuffer_ .rsrc_err := by
    cases src
    · exact hb.trans hother.symm
    · exact hother.trans hb.symm
  have hnull := hl.apart_rbuffers hsame
  cases src
  · rw [hb] at hnull
    cases hnull
  · rw [← hsame, hnull] at hb
    cases hb

/-- The buffer of a source is not the write buffer. -/
theorem Layout.apart_wbuffer (hl : Layout h buf contents pending) {b : Nat} {src : buf_read_src}
    (hb : buf.rbuffer_ src = .into b 0) : ∀ j, buf.wbuffer_ ≠ .into b j := by
  intro j hw
  rcases hl.pending with ⟨hnull, -⟩ | ⟨c, hc, -⟩
  · rw [hnull] at hw
    cases hw
  · have hj : buf.wbuffer_ = buf.rbuffer_ src := by
      rw [hc, Pointer.into.injEq] at hw
      rw [hc, hb, hw.1]
    have hnull := hl.apart src hj
    rw [hnull] at hc
    cases hc

end

end taraxacum.pstream
