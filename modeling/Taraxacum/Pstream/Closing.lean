import Taraxacum.Pstream.Writing

open json memory program Program Function

namespace taraxacum.pstream

/-- Whose the arrays are that are allocated: each is one of the three buffers. -/
structure Arrays (h : Heap UInt8) (w : Pointer) (r : buf_read_src → Pointer) : Prop where
  wbuffer : Allocated h w
  rbuffer : ∀ src, Allocated h (r src)
  apart : ∀ src, w = r src → w = .null
  apart_rbuffers : r .rsrc_out = r .rsrc_err → r .rsrc_out = .null
  owned : ∀ b n, h.Live b n → .into b 0 = w ∨ ∃ src, .into b 0 = r src

section
variable {h h' : Heap UInt8} {buf : basic_pstreambuf} {contents : buf_read_src → Contents} {pending : Bytes}
  {w : Pointer} {r : buf_read_src → Pointer}

/-- Where the areas lie, the arrays are allocated, each for itself. -/
theorem Layout.arrays (hl : Layout h buf contents pending) : Arrays h buf.wbuffer_ buf.rbuffer_ where
  wbuffer := by
    rcases hl.pending with ⟨hnull, -⟩ | ⟨b, hb, -, -, -, -, hlive, -⟩
    · exact .inl hnull
    · exact .inr ⟨b, hb, hlive⟩
  rbuffer := hl.allocated
  apart := hl.apart
  apart_rbuffers := hl.apart_rbuffers
  owned := hl.owned

/-- A buffer can be freed, and no other array is touched. -/
theorem Allocated.delete {p : Pointer} (hp : Allocated h p) : ∃ h', h.delete p = some h' ∧
    (∀ c n, h'.Live c n ↔ p ≠ .into c 0 ∧ h.Live c n) ∧
    ∀ q, (∀ b i j, p = .into b i → q ≠ .into b j) → Heap.Same h h' q := by
  rcases hp with rfl | ⟨b, rfl, hlive⟩
  · refine ⟨h, rfl, fun c n => ?_, fun q _ b i _ => ⟨fun _ => rfl, fun _ => id⟩⟩
    simp
  · obtain ⟨h', hdelete, hfreed⟩ := Heap.delete_into hlive
    refine ⟨h', hdelete, fun c n => ?_, fun q hq => hfreed.same fun j => hq b 0 j rfl⟩
    rw [hfreed.live c n, ne_eq, ne_eq, Pointer.into.injEq, eq_comm]
    simp

/-- A buffer stays allocated when another one is freed. -/
theorem Allocated.kept {p q : Pointer} (hq : Allocated h q)
    (hlive : ∀ c n, h'.Live c n ↔ p ≠ .into c 0 ∧ h.Live c n)
    (hne : p = q → p = .null) : Allocated h' q := by
  rcases hq with hnull | ⟨b, rfl, hb⟩
  · exact .inl hnull
  · refine .inr ⟨b, rfl, (hlive b bufsz).mpr ⟨fun hp => ?_, hb⟩⟩
    rw [hne hp] at hp
    cases hp

/-- The write buffer can be freed. -/
theorem Arrays.free_wbuffer (ha : Arrays h w r)
    (hlive : ∀ c n, h'.Live c n ↔ w ≠ .into c 0 ∧ h.Live c n) : Arrays h' .null r where
  wbuffer := .inl rfl
  rbuffer src := (ha.rbuffer src).kept hlive (ha.apart src)
  apart _ _ := rfl
  apart_rbuffers := ha.apart_rbuffers
  owned b n hb := by
    obtain ⟨hne, hb⟩ := (hlive b n).mp hb
    exact .inr ((ha.owned b n hb).resolve_left hne.symm)

/-- Only buffers that are not there are the same for both sources. -/
theorem Arrays.apart_other (ha : Arrays h w r) (src : buf_read_src)
    (heq : r src = r src.other) : r src = .null := by
  cases src
  · exact ha.apart_rbuffers heq
  · rw [heq]
    exact ha.apart_rbuffers heq.symm

/-- The buffer of a source can be freed, the other one staying. -/
theorem Arrays.free_rbuffer (ha : Arrays h w r) (src : buf_read_src)
    (hlive : ∀ c n, h'.Live c n ↔ r src ≠ .into c 0 ∧ h.Live c n) :
    Arrays h' w (update r src .null) where
  wbuffer := ha.wbuffer.kept hlive fun heq => by
    rw [heq]
    exact ha.apart src heq.symm
  rbuffer src' := by
    rcases src.eq_or_other src' with rfl | rfl
    · rw [update_self]
      exact .inl rfl
    · rw [update_of_ne src.other_ne]
      exact (ha.rbuffer _).kept hlive (ha.apart_other src)
  apart src' := by
    rcases src.eq_or_other src' with rfl | rfl
    · rw [update_self]
      exact id
    · rw [update_of_ne src.other_ne]
      exact ha.apart _
  apart_rbuffers heq := by
    cases src
    · rfl
    · exact heq
  owned b n hb := by
    obtain ⟨hne, hb⟩ := (hlive b n).mp hb
    rcases ha.owned b n hb with hw | ⟨src', hr⟩
    · exact .inl hw
    · rcases src.eq_or_other src' with rfl | rfl
      · exact absurd hr.symm hne
      · refine .inr ⟨src.other, ?_⟩
        rw [update_of_ne src.other_ne]
        exact hr

/-- The end of the put area. -/
def basic_pstreambuf.unwritable (buf : basic_pstreambuf) : basic_pstreambuf :=
  { buf with pbase := .null, pptr := .null, epptr := .null, wbuffer_ := .null }

/-- Without a write buffer there is no put area, and the areas of the sources stay. -/
theorem Layout.free_wbuffer (hl : Layout h buf contents pending)
    (hlive : ∀ c n, h'.Live c n ↔ buf.wbuffer_ ≠ .into c 0 ∧ h.Live c n)
    (hsame : ∀ q, (∀ b i j, buf.wbuffer_ = .into b i → q ≠ .into b j) → Heap.Same h h' q) :
    Layout h' buf.unwritable contents [] where
  pending := .inl ⟨rfl, rfl, rfl, rfl, rfl⟩
  shows := hl.shows.frame (hsame _ fun _ _ j hb => hl.apart_ne _ hb j)
  saved hpipe := (hl.saved hpipe).frame (hsame _ fun _ _ j hb => hl.apart_ne _ hb j)
  unopened := hl.unopened
  allocated := (hl.arrays.free_wbuffer hlive).rbuffer
  apart _ _ := rfl
  apart_rbuffers := hl.apart_rbuffers
  owned := (hl.arrays.free_wbuffer hlive).owned

end

section
variable {k : Kernel} {buf : basic_pstreambuf} {others : List Nat}

/-- One of the descriptors is closed. -/
theorem Descriptors.close {buf' : basic_pstreambuf} {others' : List Nat}
    (hd : Descriptors k buf others) {fd : Nat}
    (hheld : (others ++ buf.held).Perm (fd :: (others' ++ buf'.held))) :
    Descriptors { k with fds := k.fds.erase fd } buf' others' where
  perm := by
    have herase := (hd.perm.trans hheld).erase fd
    rwa [List.erase_cons_head] at herase
  nodup := hd.nodup.erase fd
  below fd' hfd' := hd.below fd' (List.mem_of_mem_erase hfd')
  unwritten := hd.unwritten
  unread := hd.unread
  closes := hd.closes

/-- The same open descriptors are held, only by others. -/
theorem Descriptors.of_held {buf' : basic_pstreambuf} {others' : List Nat} (hd : Descriptors k buf others)
    (hheld : (others ++ buf.held).Perm (others' ++ buf'.held)) : Descriptors k buf' others' :=
  ⟨hd.perm.trans hheld, hd.nodup, hd.below, hd.unwritten, hd.unread, hd.closes⟩

end

section
variable {s : Process} {contents : buf_read_src → Contents} {pending : Bytes} {others : List Nat}

/-- The end of what can be written, in memory and among the descriptors. -/
def Process.unwritable (s : Process) (heap : Heap UInt8) (fds : List Nat) : Process :=
  ⟨heap, { s.kernel with fds }, { s.buf.unwritable with wpipe_ := none }⟩

/-- Nothing new is allocated and no descriptor is new. -/
structure Process.Shrinks (s t : Process) : Prop where
  live : ∀ b n, t.heap.Live b n → s.heap.Live b n
  fds : t.kernel.fds ⊆ s.kernel.fds

namespace basic_pstreambuf

open Process Queues

/-- A descriptor is closed if there is one. -/
theorem wp_close_fd {Q : fd_type → Process → Prop} {fd : fd_type} {buf buf' : basic_pstreambuf}
    {others' : List Nat}
    (hd : Descriptors s.kernel buf others)
    (hheld : (others ++ buf.held).Perm (fd.toList ++ (others' ++ buf'.held)))
    (hQ : ∀ fds ⊆ s.kernel.fds, Descriptors { s.kernel with fds } buf' others' →
      Q none { s with kernel := { s.kernel with fds } }) : wp (close_fd fd) Q s := by
  cases fd with
  | none => exact hQ s.kernel.fds (fun _ => id) (hd.of_held hheld)
  | some fd =>
    rw [close_fd, wp_bind]
    refine Kernel.wp_close ?_ (hd.closes fd) (hQ _ List.erase_subset (hd.close hheld))
    rw [hd.perm.mem_iff, hheld.mem_iff]
    exact List.mem_cons_self

/-- Closing the input of the child gives up its descriptor, which the system has closed. -/
theorem wp_close_wpipe {Q : Unit → Process → Prop} (hd : Descriptors s.kernel s.buf others)
    (hQ : ∀ fds ⊆ s.kernel.fds, Descriptors { s.kernel with fds } { s.buf with wpipe_ := none } others →
      Q () { s with kernel := { s.kernel with fds }, buf := { s.buf with wpipe_ := none } }) :
        wp close_wpipe Q s := by
  rw [close_wpipe, wp_bind, wp_self, wp_bind]
  refine wp_close_fd hd ?_ hQ
  exact List.perm_append_comm_assoc others s.buf.wpipe_.toList _

/-- Both sources are given up one after the other. -/
theorem forget_both (rpipe_ : buf_read_src → fd_type) :
    Function.update (Function.update rpipe_ .rsrc_out none) .rsrc_err none = fun _ => none := by
  funext src
  cases src <;> rfl

/-- Closing the outputs of the child gives up both descriptors. -/
theorem wp_close_rpipes {Q : Unit → Process → Prop} (hd : Descriptors s.kernel s.buf others)
    (hQ : ∀ fds ⊆ s.kernel.fds, Descriptors { s.kernel with fds }
      { s.buf with rpipe_ := fun _ => none } others →
      Q () { s with kernel := { s.kernel with fds }, buf := { s.buf with rpipe_ := fun _ => none } }) :
    wp close_rpipes Q s := by
  let out : basic_pstreambuf := { s.buf with rpipe_ := Function.update s.buf.rpipe_ .rsrc_out none }
  let both : basic_pstreambuf := { s.buf with rpipe_ := fun _ => none }
  have hout : out.held = s.buf.wpipe_.toList ++ (s.buf.rpipe_ .rsrc_err).toList := rfl
  have hboth : both.held = s.buf.wpipe_.toList ++ [] := rfl
  rw [close_rpipes, wp_bind, wp_self, wp_bind]
  have hfirst : (others ++ s.buf.held).Perm ((s.buf.rpipe_ .rsrc_out).toList ++ (others ++ out.held)) := by
    rw [hout, held]
    refine ((List.perm_append_comm_assoc _ _ _).append_left others).trans ?_
    exact List.perm_append_comm_assoc others _ _
  have hsecond : (others ++ out.held).Perm ((s.buf.rpipe_ .rsrc_err).toList ++ (others ++ both.held)) := by
    rw [hout, hboth, List.append_nil, ← List.append_assoc]
    exact List.perm_append_comm
  refine wp_close_fd hd hfirst fun fds hfds hd' => ?_
  rw [wp_bind]
  refine wp_close_fd hd' hsecond fun fds' hfds' hd'' => ?_
  rw [wp_update, forget_both]
  exact hQ fds' (fun _ h => hfds (hfds' h)) hd''

/-- The write buffer is freed, once, and forgotten. -/
theorem wp_destroy_wbuffer {Q : Unit → Process → Prop} (ha : Arrays s.heap s.buf.wbuffer_ s.buf.rbuffer_)
    (hQ : ∀ heap, (∀ c n, heap.Live c n ↔ s.buf.wbuffer_ ≠ .into c 0 ∧ s.heap.Live c n) →
      (∀ q, (∀ b i j, s.buf.wbuffer_ = .into b i → q ≠ .into b j) → Heap.Same s.heap heap q) →
      Q () { s with heap, buf := s.buf.unwritable }) : wp destroy_wbuffer Q s := by
  obtain ⟨heap, hdelete, hlive, hsame⟩ := ha.wbuffer.delete
  rw [destroy_wbuffer, wp_bind, setp, wp_update, wp_bind, wp_self, wp_bind]
  exact wp_onHeap hdelete (hQ heap hlive hsame)

/-- The buffer of a source is freed, once, and its area with it if that is in use. -/
theorem wp_destroy_rbuffer {Q : Unit → Process → Prop} {src : buf_read_src}
    (ha : Arrays s.heap s.buf.wbuffer_ s.buf.rbuffer_)
    (hQ : ∀ heap area, Arrays heap s.buf.wbuffer_ (Function.update s.buf.rbuffer_ src .null) →
      area = (if s.buf.rsrc_ = src then .NULL else s.buf.area) →
      Q () { s with heap, buf := { s.buf with area, rbuffer_ := Function.update s.buf.rbuffer_ src .null } }) :
    wp (destroy_rbuffer src) Q s := by
  obtain ⟨heap, hdelete, hlive, -⟩ := (ha.rbuffer src).delete
  have ha' := ha.free_rbuffer src hlive
  rw [destroy_rbuffer, wp_bind, wp_self, wp_bind]
  refine wp_when (fun hactive => ?_) fun hactive => ?_
  · rw [setg, wp_update, wp_bind]
    refine wp_onHeap hdelete (hQ heap .NULL ha' ?_)
    rw [if_pos (beq_iff_eq.mp hactive)]
  · rw [wp_bind]
    refine wp_onHeap hdelete (hQ heap s.buf.area ha' ?_)
    rw [if_neg (beq_eq_false_iff_ne.mp hactive)]

/-- What `wait` does once the child has exited, and `peof` in any case. -/
theorem wp_end_writing {Q : Unit → Process → Prop} (hl : Layout s.heap s.buf contents pending)
    (hd : Descriptors s.kernel s.buf [])
    (hQ : ∀ heap fds, Layout heap { s.buf.unwritable with wpipe_ := none } contents [] →
      Descriptors { s.kernel with fds } { s.buf.unwritable with wpipe_ := none } [] →
      s.Shrinks (s.unwritable heap fds) → Q () (s.unwritable heap fds)) :
    wp (destroy_buffers ⟨true, false, false⟩) (fun _ t => wp close_wpipe Q t) s := by
  rw [destroy_buffers, wp_bind]
  refine wp_destroy_wbuffer hl.arrays fun heap hlive hsame => ?_
  refine wp_close_wpipe (hd.of_held (.refl ([] ++ s.buf.held))) fun fds hfds hd' => ?_
  have hl' := hl.free_wbuffer hlive hsame
  refine hQ heap fds ?_ hd' ⟨fun b n hb => ((hlive b n).mp hb).2, hfds⟩
  exact ⟨hl'.pending, hl'.shows, hl'.saved, hl'.unopened, hl'.allocated, hl'.apart, hl'.apart_rbuffers,
    hl'.owned⟩

/-- Each call of `waitpid` uses an answer up, so that there are only so many of them. -/
theorem wp_waitpid {Q : Except Int (Option Int) → Process → Prop} {nohang : Bool}
    (hQ : ∀ r waits, waits.length < s.kernel.waits.length → Q r { s with kernel := { s.kernel with waits } }) :
    wp (Kernel.waitpid nohang) Q s := by
  have hle : (if nohang then s.kernel.waits else s.kernel.waits.dropWhile Kernel.not_exited).length ≤
      s.kernel.waits.length := by
    split
    · exact Nat.le_refl _
    · exact (List.dropWhile_suffix _).length_le
  rw [Kernel.waitpid, next, wp_bind, wp_state]
  split
  · exact wp_wait
  · rename_i r waits hwaits
    rw [hwaits, List.length_cons] at hle
    exact hQ r waits hle

/-- A child that has not exited, or of which nothing is learnt. -/
structure Unnoticed (s : Process) (r : Int) (t : Process) : Prop where
  unnoticed : r ≠ 1
  heap : t.heap = s.heap
  goes : s.kernel.Goes t.kernel s.kernel.received
  buf : t.buf = { s.buf with error_ := t.buf.error_ }
  retry : r = -1 → t.buf.error_ = s.buf.error_ ∨ t.kernel.waits.length < s.kernel.waits.length

/-- A `wait` that has learnt nothing changes nothing that counts. -/
theorem Unnoticed.sound {r : Int} {t : Process} (hs : s.Sound contents pending) (hunnoticed : Unnoticed s r t) :
    t.Sound contents pending ∧ t.queues contents pending = s.queues contents pending := by
  obtain ⟨heap, kernel, buf⟩ := t
  obtain ⟨-, rfl, hk, hbuf, -⟩ := hunnoticed
  dsimp only at hk hbuf
  rw [hbuf]
  refine ⟨hs.error hk buf.error_, ?_⟩
  simp only [Process.queues, hk.fresh, hk.written, hk.received]

/-- The child is not noticed to have exited, or it is, and nothing can be written any more. -/
theorem wait_spec (hs : s.Sound contents pending) (nohang : Bool) :
    wp (wait nohang) (fun r t => Unnoticed s r t ∨ r = 1 ∧ t.Sound contents [] ∧ s.Shrinks t ∧
      t.buf.rpipe_ = s.buf.rpipe_ ∧ t.buf.rbuffer_ = s.buf.rbuffer_ ∧
      t.queues contents [] = (s.queues contents pending).ended) s := by
  rw [wait, wp_bind, wp_self]
  refine wp_ite (fun _ => ?_) fun _ =>
    .inl ⟨by decide, rfl, ⟨rfl, rfl, rfl, rfl, rfl⟩, rfl, fun _ => .inl rfl⟩
  rw [wp_bind]
  refine wp_waitpid fun r waits hless => ?_
  rcases r with errno | _ | status_
  · exact .inl ⟨by decide, rfl, ⟨rfl, rfl, rfl, rfl, rfl⟩, rfl, fun _ => .inr hless⟩
  · exact .inl ⟨by decide, rfl, ⟨rfl, rfl, rfl, rfl, rfl⟩, rfl, fun h => by cases h⟩
  · have hl := hs.layout
    rw [wp_bind, wp_update, wp_bind]
    let s' : Process := ⟨s.heap, { s.kernel with waits }, { s.buf with ppid_ := 0, status_ }⟩
    have hl' : Layout s'.heap s'.buf contents pending :=
      ⟨hl.pending, hl.shows, hl.saved, hl.unopened, hl.allocated, hl.apart, hl.apart_rbuffers, hl.owned⟩
    have hd' : Descriptors s'.kernel s'.buf [] :=
      hs.descriptors.goes ⟨rfl, rfl, rfl, rfl, rfl⟩ rfl hs.descriptors.unread
    simp only [wp_bind]
    refine wp_end_writing hl' hd' ?_
    intro heap fds hl' hd' hshrinks
    exact .inr ⟨rfl, ⟨hl', hd', fun _ => rfl⟩, ⟨hshrinks.live, hshrinks.fds⟩, rfl, rfl, rfl⟩

/-- `exited` closes the input of a child that has exited, and changes nothing otherwise. -/
theorem exited_spec (hs : s.Sound contents pending) (hreadable : s.Readable) :
    wp exited (Leaves (s.queues contents pending).Notices) s := by
  rw [exited, wp_bind, wp_self]
  refine wp_ite (fun _ => ⟨hreadable, contents, pending, hs, .same true⟩) fun _ => ?_
  rw [wp_bind]
  refine wp_mono ?_ (wait_spec hs _)
  rintro r t (hunnoticed | ⟨rfl, hs', -, hrpipe, hrbuffer, hq⟩)
  · obtain ⟨hs', hq⟩ := hunnoticed.sound hs
    refine ⟨?_, contents, pending, hs', ?_⟩
    · unfold Process.Readable
      rw [hunnoticed.buf]
      exact hreadable
    · rw [hq]
      exact .same _
  · refine ⟨?_, contents, [], hs', ?_⟩
    · unfold Process.Readable
      rw [hrpipe, hrbuffer]
      exact hreadable
    · rw [hq]
      exact .exited

/-- A child that has not been found to have exited is as it was. -/
theorem unchanged_of_notices {q q' : Queues} (hnotices : q.Notices false q') : q' = q := by
  cases hnotices
  rfl

/-- `sync` empties the area, unless the child is found to have exited. -/
theorem sync_spec (hs : s.Sound contents pending) (hreadable : s.Readable) :
    wp sync (Leaves (s.queues contents pending).Syncs) s := by
  rw [sync, wp_bind]
  refine wp_mono ?_ (exited_spec hs hreadable)
  rintro (_ | _) t ⟨hreadable', contents', pending', hs', hnotices⟩
  · rw [if_neg Bool.false_ne_true]
    refine wp_mono ?_ (empty_buffer_spec hs' hreadable')
    rintro ok u ⟨⟨hreadable'', contents'', pending'', hs'', hempties⟩, -⟩
    rw [unchanged_of_notices hnotices] at hempties
    exact ⟨hreadable'', contents'', pending'', hs'', .running hempties⟩
  · rw [if_pos rfl, wp_pure]
    exact ⟨hreadable', contents', pending', hs', .exited hnotices⟩

/-- `peof` writes what stands in the area, with one `write`, and closes the input. What that `write`
    does not take is given up. -/
theorem peof_spec (hs : s.Sound contents pending) (hreadable : s.Readable) :
    wp peof (Leaves fun _ q => (s.queues contents pending).Step .peof .nothing q) s := by
  rw [peof, wp_bind]
  refine wp_mono ?_ (sync_spec hs hreadable)
  rintro ok t ⟨hreadable', contents', pending', hs', hsyncs⟩
  rw [wp_bind]
  refine wp_end_writing hs'.layout hs'.descriptors fun heap fds hl hd _ => ?_
  exact ⟨hreadable', contents', [], ⟨hl, hd, fun _ => rfl⟩, .peof hsyncs⟩

/-- What leaves the queues alone. -/
def Keeps {α : Type} (q : Queues) (_ : α) (q' : Queues) : Prop := q' = q

/-- Looking for the child before a signal changes nothing that callers see. -/
theorem signalled_spec (hs : s.Sound contents pending) (hreadable : s.Readable) :
    wp signalled (Leaves (Keeps (s.queues contents pending))) s := by
  rw [signalled, wp_bind]
  refine wp_next ?_
  rintro (errno | ⟨⟩) kills
  · rw [wp_bind]
    exact ⟨hreadable, contents, pending, @Process.Sound.error s contents pending hs { s.kernel with kills }
      ⟨rfl, rfl, rfl, rfl, rfl⟩ errno, rfl⟩
  · exact ⟨hreadable, contents, pending, @Process.Sound.error s contents pending hs { s.kernel with kills }
      ⟨rfl, rfl, rfl, rfl, rfl⟩ s.buf.error_, rfl⟩

theorem kill_spec (hs : s.Sound contents pending) (hreadable : s.Readable) :
    wp kill (Leaves (Keeps (s.queues contents pending))) s := by
  rw [kill, wp_bind, wp_self]
  exact wp_ite (fun _ => signalled_spec hs hreadable) fun _ => ⟨hreadable, contents, pending, hs, rfl⟩

theorem killpg_spec (hs : s.Sound contents pending) (hreadable : s.Readable) :
    wp killpg (Leaves (Keeps (s.queues contents pending))) s := by
  rw [killpg, wp_bind, wp_self]
  refine wp_ite (fun _ => ?_) fun _ => ⟨hreadable, contents, pending, hs, rfl⟩
  rw [wp_bind]
  refine wp_next ?_
  rintro (errno | pgid) getpgids
  all_goals
    have hs' (e : Int) := @Process.Sound.error s contents pending hs { s.kernel with getpgids }
      ⟨rfl, rfl, rfl, rfl, rfl⟩ e
  · rw [wp_bind]
    exact ⟨hreadable, contents, pending, hs' errno, rfl⟩
  · rw [wp_bind, wp_state]
    refine wp_ite (fun _ => ?_) fun _ => ?_
    · rw [wp_bind]
      exact ⟨hreadable, contents, pending, hs' EPERM, rfl⟩
    · exact signalled_spec (hs' s.buf.error_) hreadable

end basic_pstreambuf

/-- Nothing is held any more: no array and no descriptor. -/
structure Process.Closed (s : Process) : Prop where
  sound : s.Sound (fun _ => .none) []
  live : ∀ b n, ¬s.heap.Live b n
  fds : s.kernel.fds = []

/-- On an empty heap a buffer can only be null. -/
theorem Allocated.null {h : Heap UInt8} {p : Pointer} (hp : Allocated h p) (hlive : ∀ b n, ¬h.Live b n) :
    p = .null := by
  rcases hp with hnull | ⟨b, -, hb⟩
  · exact hnull
  · exact absurd hb (hlive b bufsz)

/-- A closed buffer holds no descriptor. -/
theorem Process.Closed.held (hc : s.Closed) : s.buf.held = [] := by
  have hperm := hc.sound.descriptors.perm
  rw [hc.fds, List.nil_append] at hperm
  exact hperm.nil_eq.symm

theorem Process.Closed.wpipe (hc : s.Closed) : s.buf.wpipe_ = none := by
  have hheld := (List.append_eq_nil_iff.mp hc.held).1
  cases hpipe : s.buf.wpipe_ with
  | none => rfl
  | some fd =>
    rw [hpipe] at hheld
    cases hheld

theorem Process.Closed.rpipe (hc : s.Closed) (src : buf_read_src) : s.buf.rpipe_ src = none := by
  have hheld := List.append_eq_nil_iff.mp (List.append_eq_nil_iff.mp hc.held).2
  cases hpipe : s.buf.rpipe_ src with
  | none => rfl
  | some fd =>
    cases src
    · rw [hpipe] at hheld
      cases hheld.1
    · rw [hpipe] at hheld
      cases hheld.2

/-- Its write buffer is freed. -/
theorem Process.Closed.wbuffer (hc : s.Closed) : s.buf.wbuffer_ = .null :=
  hc.sound.layout.arrays.wbuffer.null hc.live

/-- The buffers of its sources are freed. -/
theorem Process.Closed.rbuffer (hc : s.Closed) (src : buf_read_src) : s.buf.rbuffer_ src = .null :=
  (hc.sound.layout.allocated src).null hc.live

/-- A closed buffer has no area that could be read beyond its end. -/
theorem Process.Closed.readable (hc : s.Closed) : s.Readable := fun src hpipe => absurd (hc.rpipe src) hpipe

/-- A process is closed if no array is allocated and the buffer holds no descriptor. -/
theorem Process.Closed.of_null (ha : Arrays s.heap .null fun _ => .null) (hd : Descriptors s.kernel s.buf [])
    (hw : s.buf.wpipe_ = none) (hr : s.buf.rpipe_ = fun _ => none) (hbuffer : s.buf.wbuffer_ = .null)
    (hbuffers : s.buf.rbuffer_ = fun _ => .null) (harea : s.buf.area = .NULL) (hbase : s.buf.pbase = .null)
    (hptr : s.buf.pptr = .null) (hend : s.buf.epptr = .null) : s.Closed where
  sound := by
    refine ⟨⟨.inl ⟨hbuffer, hbase, hptr, hend, rfl⟩, ?_, ?_, fun _ _ => rfl, ?_, ?_, ?_, ?_⟩, hd, fun _ => hw⟩
    · rw [harea]
      exact .none _
    · intro hpipe
      rw [hr] at hpipe
      exact absurd rfl hpipe
    · rw [hbuffers]
      exact ha.rbuffer
    · rw [hbuffers, hbuffer]
      exact ha.apart
    · rw [hbuffers]
      exact ha.apart_rbuffers
    · rw [hbuffers, hbuffer]
      exact ha.owned
  live b n hb := by
    rcases ha.owned b n hb with h | ⟨src, h⟩ <;> cases h
  fds := by
    have hperm := hd.perm
    rw [List.nil_append, basic_pstreambuf.held, hw, hr] at hperm
    exact hperm.eq_nil

namespace basic_pstreambuf

open Process Queues

/-- What `close` destroys before it waits for the child. -/
theorem closed_spec {Q : Unit → Process → Prop} (hs : s.Sound contents pending)
    (hQ : ∀ t, t.Closed → t.queues (fun _ => .none) [] = (s.queues contents pending).closed → Q () t) :
    wp (destroy_buffers ⟨true, true, true⟩)
      (fun _ t => wp close_wpipe (fun _ t => wp close_rpipes Q t) t) s := by
  rw [destroy_buffers, wp_bind]
  refine wp_destroy_wbuffer hs.layout.arrays fun heap hlive _ => ?_
  have ha := hs.layout.arrays.free_wbuffer hlive
  rw [wp_bind]
  refine wp_destroy_rbuffer ha fun heap area ha harea => ?_
  refine wp_destroy_rbuffer ha fun heap area' ha harea' => ?_
  refine wp_close_wpipe (hs.descriptors.of_held (.refl ([] ++ s.buf.held))) fun fds hfds hd => ?_
  refine wp_close_rpipes hd fun fds' hfds' hd' => ?_
  have hnull : Function.update (Function.update s.buf.rbuffer_ .rsrc_out .null) .rsrc_err .null =
    fun _ => .null := by
    funext src
    cases src <;> rfl
  refine hQ _ (.of_null ?_ hd' rfl rfl rfl hnull ?_ rfl rfl rfl) rfl
  · rw [← hnull]
    exact ha
  · change area' = .NULL
    rw [harea', harea]
    change (if s.buf.rsrc_ = .rsrc_err then Area.NULL
      else if s.buf.rsrc_ = .rsrc_out then .NULL else s.buf.area) = .NULL
    cases s.buf.rsrc_ <;> rfl

/-- Once all is closed nothing changes while `close` waits for the child. -/
def Reaping (q : Queues) (_ : Unit) (t : Process) : Prop := t.Closed ∧ t.queues (fun _ => .none) [] = q.closed

/-- A turn of the loop in `close` waits for the child once more, and uses up an answer of the
    system. This is why the loop comes to its end. -/
theorem reap_spec {q : Queues} (hreaping : Reaping q () s) :
    wp (reap ()) (fun r t => r.elim (fun _ => Reaping q () t ∧ t.kernel.waits.length < s.kernel.waits.length)
      fun _ => Reaping q () t) s := by
  obtain ⟨hc, hq⟩ := hreaping
  have hs : Process.Sound { s with buf := { s.buf with error_ := 0 } } (fun _ => .none) [] :=
    hc.sound.error ⟨rfl, rfl, rfl, rfl, rfl⟩ 0
  rw [reap, wp_bind, set_error, wp_update, wp_bind]
  refine wp_mono ?_ (wait_spec hs _)
  rintro r t (hunnoticed | ⟨rfl, hs', hshrinks, hrpipe, hrbuffer, hq'⟩)
  · obtain ⟨hs', hq'⟩ := hunnoticed.sound hs
    have hc' : t.Closed := ⟨hs', by rw [hunnoticed.heap]; exact hc.live,
      by rw [hunnoticed.goes.fds]; exact hc.fds⟩
    rw [wp_bind, wp_self, wp_pure]
    split
    · rename_i hretry
      refine ⟨⟨hc', hq'.trans hq⟩, (hunnoticed.retry hretry.1).resolve_left fun herror => ?_⟩
      rw [herror] at hretry
      have hzero : (0 : Int) = EINTR := hretry.2
      cases hzero
    · exact ⟨hc', hq'.trans hq⟩
  · refine ⟨⟨hs', fun b n hb => hc.live b n (hshrinks.live b n hb), ?_⟩, ?_⟩
    · have hfds := hshrinks.fds
      rw [show s.kernel.fds = [] from hc.fds] at hfds
      exact List.subset_nil.mp hfds
    · rw [hq']
      exact congrArg Queues.ended hq

/-- `close` leaves nothing open and nothing allocated, whether the child could be waited for or not.
    The system is taken to close every open end. -/
theorem close_spec (hs : s.Sound contents pending) (hreadable : s.Readable) :
    wp close (fun b t => t.Closed ∧
      (s.queues contents pending).Step .close (.flag b) (t.queues (fun _ => .none) [])) s := by
  rw [close, wp_bind, wp_self, wp_bind]
  refine wp_mono ?_ (sync_spec hs hreadable)
  rintro ok t ⟨-, contents', pending', hs', hsyncs⟩
  simp only [wp_bind]
  refine closed_spec hs' fun u hc hq => ?_
  rw [wp_state]
  refine wp_mono ?_ (wp_iterate (I := Reaping (t.queues contents' pending'))
    (μ := fun _ u => u.kernel.waits.length)
    (fun _ u hreaping => reap_spec hreaping) ⟨hc, hq⟩ (Nat.lt_succ_self _))
  rintro ⟨⟩ v ⟨hc', hq'⟩
  refine ⟨hc', ?_⟩
  rw [hq']
  exact .close hsyncs

end basic_pstreambuf

end

end taraxacum.pstream
