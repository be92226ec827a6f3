import Taraxacum.Pstream.Closing

open json memory program Program Function

namespace taraxacum.pstream

section
variable {h : Heap UInt8} {w : Pointer} {r : buf_read_src → Pointer}

/-- A new array is none of those that are there. -/
theorem Allocated.ne_new (hp : Allocated h w) : w ≠ (h.new bufsz).1 := by
  rcases hp with rfl | ⟨b, rfl, hlive⟩
  · exact fun heq => by cases heq
  · intro heq
    have hlt := Heap.live_lt hlive
    rw [(Pointer.into.inj heq).1] at hlt
    exact absurd hlt (Nat.lt_irrefl _)

/-- A new array is a buffer. -/
theorem allocated_new (h : Heap UInt8) : Allocated (h.new bufsz).2 (h.new bufsz).1 :=
  .inr ⟨_, rfl, (Heap.live_new h _ _ _).mpr (.inl ⟨rfl, rfl⟩)⟩

/-- A write buffer may be made where there is none. -/
theorem Arrays.new_wbuffer (ha : Arrays h .null r) : Arrays (h.new bufsz).2 (h.new bufsz).1 r where
  wbuffer := allocated_new h
  rbuffer src := (ha.rbuffer src).frame (Heap.same_new h _ _)
  apart src heq := absurd heq.symm (ha.rbuffer src).ne_new
  apart_rbuffers := ha.apart_rbuffers
  owned b n hb := by
    rcases (Heap.live_new h _ _ _).mp hb with ⟨rfl, -⟩ | hold
    · exact .inl rfl
    · rcases ha.owned b n hold with hnull | hr
      · cases hnull
      · exact .inr hr

/-- The buffer of a source may be made where there is none. -/
theorem Arrays.new_rbuffer (ha : Arrays h w r) {src : buf_read_src} (hnull : r src = .null) :
    Arrays (h.new bufsz).2 w (update r src (h.new bufsz).1) where
  wbuffer := ha.wbuffer.frame (Heap.same_new h _ _)
  rbuffer src' := by
    rcases src.eq_or_other src' with rfl | rfl
    · rw [update_self]
      exact allocated_new h
    · rw [update_of_ne src.other_ne]
      exact (ha.rbuffer _).frame (Heap.same_new h _ _)
  apart src' := by
    rcases src.eq_or_other src' with rfl | rfl
    · rw [update_self]
      exact fun heq => absurd heq ha.wbuffer.ne_new
    · rw [update_of_ne src.other_ne]
      exact ha.apart _
  apart_rbuffers heq := by
    cases src
    · exact absurd heq.symm (ha.rbuffer .rsrc_err).ne_new
    · exact absurd heq (ha.rbuffer .rsrc_out).ne_new
  owned b n hb := by
    rcases (Heap.live_new h _ _ _).mp hb with ⟨rfl, -⟩ | hold
    · exact .inr ⟨src, by rw [update_self]; rfl⟩
    · rcases ha.owned b n hold with hw | ⟨src', hr⟩
      · exact .inl hw
      · rcases src.eq_or_other src' with rfl | rfl
        · rw [hnull] at hr
          cases hr
        · exact .inr ⟨src.other, by rw [update_of_ne src.other_ne]; exact hr⟩

end

/-- The two ends of a pipe, if there is one. -/
def ends_fds : Option (Nat × Nat) → List Nat
  | none => []
  | some (rd, wr) => [rd, wr]

/-- Nothing but descriptors have changed, and an error. -/
structure Process.Piped (s t : Process) : Prop where
  heap : t.heap = s.heap
  fresh : s.kernel.fresh ≤ t.kernel.fresh
  written : t.kernel.written = s.kernel.written
  received : t.kernel.received = s.kernel.received
  buf : t.buf = { s.buf with error_ := t.buf.error_ }

theorem Process.Piped.refl (s : Process) : s.Piped s := ⟨rfl, Nat.le_refl _, rfl, rfl, rfl⟩

/-- Making pipes one after the other changes the kernel and the error only. -/
theorem Process.Piped.trans {s t u : Process} (hst : s.Piped t) (htu : t.Piped u) : s.Piped u where
  heap := htu.heap.trans hst.heap
  fresh := Nat.le_trans hst.fresh htu.fresh
  written := htu.written.trans hst.written
  received := htu.received.trans hst.received
  buf := by
    rw [htu.buf, hst.buf]

/-- That is, only these. -/
theorem Process.Piped.eq {s t : Process} (hst : s.Piped t) :
    ∃ kernel e, t = ⟨s.heap, kernel, { s.buf with error_ := e }⟩ := by
  obtain ⟨heap, kernel, buf⟩ := t
  obtain ⟨rfl, -, -, -, hbuf⟩ := hst
  exact ⟨kernel, buf.error_, congrArg _ hbuf⟩

section
variable {s : Process} {others : List Nat} {buf : basic_pstreambuf} {contents : buf_read_src → Contents}
  {pending : Bytes}

/-- A new pipe adds two descriptors, which nobody holds yet. -/
theorem Descriptors.piped {k : Kernel} (hd : Descriptors k buf others) (pipes : List (Except Int Unit)) :
    Descriptors { k with pipes, fds := k.fresh :: (k.fresh + 1) :: k.fds, fresh := k.fresh + 2 } buf
      (k.fresh :: (k.fresh + 1) :: others) where
  perm := (hd.perm.cons _).cons _
  nodup := by
    refine List.nodup_cons.mpr ⟨?_, List.nodup_cons.mpr ⟨?_, hd.nodup⟩⟩
    · intro hmem
      rcases List.mem_cons.mp hmem with heq | hmem
      · omega
      · exact absurd (hd.below _ hmem) (Nat.lt_irrefl _)
    · intro hmem
      have hlt := hd.below _ hmem
      omega
  below fd hfd := by
    rcases List.mem_cons.mp hfd with rfl | hfd
    · exact Nat.lt_add_of_pos_right (by decide)
    · rcases List.mem_cons.mp hfd with rfl | hfd
      · exact Nat.lt_succ_self _
      · have hlt := hd.below fd hfd
        change fd < k.fresh + 2
        omega
  unwritten fd hfd := hd.unwritten fd (Nat.le_trans (Nat.le_add_right _ 2) hfd)
  unread fd hfd := hd.unread fd (Nat.le_trans (Nat.le_add_right _ 2) hfd)
  closes := hd.closes

namespace basic_pstreambuf

open Process Queues

/-- A pipe that is wanted is made, or there is an error, and its two ends are new. Of the process
    only the kernel and the error change. -/
theorem make_pipe_spec (hd : Descriptors s.kernel buf others) (wanted : Bool) :
    wp (make_pipe wanted) (fun ends t => s.Piped t ∧ Descriptors t.kernel buf (ends_fds ends ++ others) ∧
      (∀ fd ∈ ends_fds ends, s.kernel.fresh ≤ fd) ∧ (wanted = false → ends = none)) s := by
  rw [make_pipe, wp_bind, wp_self]
  refine wp_ite (fun hwanted => ?_) fun _ => ⟨.refl s, hd, fun fd hfd => (by cases hfd), fun _ => rfl⟩
  rw [wp_bind]
  refine Kernel.wp_pipe (fun errno pipes => ?_) fun pipes => ?_
  · rw [wp_bind]
    refine ⟨⟨rfl, Nat.le_refl _, rfl, rfl, rfl⟩, ?_, fun fd hfd => (by cases hfd), fun _ => rfl⟩
    exact ⟨hd.perm, hd.nodup, hd.below, hd.unwritten, hd.unread, hd.closes⟩
  · refine ⟨⟨rfl, Nat.le_add_right _ 2, rfl, rfl, rfl⟩, hd.piped pipes, ?_, ?_⟩
    · intro fd hfd
      simp only [ends_fds, List.mem_cons, List.not_mem_nil, or_false] at hfd
      omega
    · intro hnot
      rw [hwanted.2] at hnot
      cases hnot

/-- Both ends of a pipe are closed, if it was made. -/
theorem wp_close_ends {Q : Unit → Process → Prop} {ends : Option (Nat × Nat)} {others' : List Nat}
    (hd : Descriptors s.kernel buf others) (hperm : others.Perm (ends_fds ends ++ others'))
    (hQ : ∀ fds, Descriptors { s.kernel with fds } buf others' →
      Q () { s with kernel := { s.kernel with fds } }) :
    wp (close_ends ends) Q s := by
  have hheld := hperm.append_right buf.held
  rcases ends with _ | ⟨rd, wr⟩
  · exact hQ s.kernel.fds (hd.of_held hheld)
  · rw [close_ends, wp_bind]
    have hfirst : (others ++ buf.held).Perm (rd :: (wr :: others' ++ buf.held)) := hheld
    refine Kernel.wp_close ?_ (hd.closes rd) ?_
    · rw [hd.perm.mem_iff, hfirst.mem_iff]
      exact List.mem_cons_self
    · have hd' := hd.close hfirst
      rw [wp_bind]
      refine Kernel.wp_close ?_ (hd'.closes wr) (hQ _ (hd'.close (.refl _)))
      rw [hd'.perm.mem_iff]
      exact List.mem_cons_self

/-- The pipe that was made first is the first to be used. -/
theorem perm_pipes (pin pout perr : Option (Nat × Nat)) :
    (ends_fds perr ++ (ends_fds pout ++ (ends_fds pin ++ []))).Perm
      (ends_fds pin ++ (ends_fds perr ++ ends_fds pout)) := by
  rw [List.append_nil, ← List.append_assoc]
  exact List.perm_append_comm

/-- All the pipes that have been made are closed. -/
theorem wp_close_pipes {Q : Unit → Process → Prop} {pin pout perr : Option (Nat × Nat)}
    (hd : Descriptors s.kernel buf (ends_fds perr ++ (ends_fds pout ++ (ends_fds pin ++ []))))
    (hQ : ∀ fds, Descriptors { s.kernel with fds } buf [] → Q () { s with kernel := { s.kernel with fds } }) :
    wp (close_ends pin) (fun _ t => wp (close_ends pout) (fun _ t => wp (close_ends perr) Q t) t) s := by
  refine wp_close_ends hd (perm_pipes pin pout perr) fun fds₁ hd₁ => ?_
  refine wp_close_ends hd₁ List.perm_append_comm fun fds₂ hd₂ => ?_
  refine wp_close_ends hd₂ (by rw [List.append_nil]) fun fds₃ hd₃ => ?_
  exact hQ fds₃ hd₃

/-- Of the child's input the parent keeps the writing end, and closes the other. -/
theorem wp_keep_writing {Q : Unit → Process → Prop} {ends : Option (Nat × Nat)} {others' : List Nat}
    (hd : Descriptors s.kernel s.buf others) (hperm : others.Perm (ends_fds ends ++ others'))
    (hnone : s.buf.wpipe_ = none)
    (hQ : ∀ fds wpipe_, Descriptors { s.kernel with fds } { s.buf with wpipe_ } others' →
      (∀ fd, wpipe_ = some fd → fd ∈ ends_fds ends) →
      Q () { s with kernel := { s.kernel with fds }, buf := { s.buf with wpipe_ } }) :
      wp (keep_writing ends) Q s := by
  have hheld := hperm.append_right s.buf.held
  rcases ends with _ | ⟨rd, wr⟩
  · refine hQ s.kernel.fds s.buf.wpipe_ (hd.of_held hheld) fun fd hfd => ?_
    rw [hnone] at hfd
    cases hfd
  · rw [keep_writing, wp_bind, wp_update, wp_bind]
    have hkept : held { s.buf with wpipe_ := some wr } = wr :: s.buf.held := by
      simp only [held, hnone, Option.toList_some, Option.toList_none, List.nil_append, List.singleton_append]
    refine Kernel.wp_close ?_ (hd.closes rd) (hQ _ (some wr) (hd.close ?_) ?_)
    · rw [show (rd ∈ s.kernel.fds) ↔ _ from hd.perm.mem_iff, hheld.mem_iff]
      exact List.mem_cons_self
    · rw [hkept]
      refine hheld.trans (List.Perm.cons rd ?_)
      exact List.perm_middle.symm
    · intro fd hfd
      cases hfd
      exact List.mem_cons_of_mem _ List.mem_cons_self

/-- Of a source the buffer holds its reading end. -/
theorem held_keep_reading {src : buf_read_src} (hnone : s.buf.rpipe_ src = none) (rd : Nat) :
    (held { s.buf with rpipe_ := Function.update s.buf.rpipe_ src (some rd) }).Perm (rd :: s.buf.held) := by
  have hself := update_self src (some rd) s.buf.rpipe_
  have hother := update_of_ne src.other_ne (some rd) s.buf.rpipe_
  cases src
  · simp only [held, hnone, hself, Option.toList_some, Option.toList_none, List.nil_append,
      List.singleton_append]
    change (s.buf.wpipe_.toList ++ rd :: (s.buf.rpipe_ .rsrc_err).toList).Perm _
    exact List.perm_middle
  · simp only [held, hnone, hself, Option.toList_some, Option.toList_none, List.append_nil]
    change (s.buf.wpipe_.toList ++ ((s.buf.rpipe_ .rsrc_out).toList ++ [rd])).Perm _
    rw [← List.append_assoc]
    exact List.perm_append_comm

/-- Of an output of the child the parent keeps the reading end, and closes the other. -/
theorem wp_keep_reading {Q : Unit → Process → Prop} {src : buf_read_src} {ends : Option (Nat × Nat)}
    {others' : List Nat} (hd : Descriptors s.kernel s.buf others)
    (hperm : others.Perm (ends_fds ends ++ others'))
    (hnone : s.buf.rpipe_ src = none)
    (hQ : ∀ fds rpipe_, Descriptors { s.kernel with fds } { s.buf with rpipe_ } others' →
      (∀ fd, rpipe_ src = some fd → fd ∈ ends_fds ends) → rpipe_ src.other = s.buf.rpipe_ src.other →
      Q () { s with kernel := { s.kernel with fds }, buf := { s.buf with rpipe_ } }) :
    wp (keep_reading src ends) Q s := by
  have hheld := hperm.append_right s.buf.held
  rcases ends with _ | ⟨rd, wr⟩
  · refine hQ s.kernel.fds s.buf.rpipe_ (hd.of_held hheld) (fun fd hfd => ?_) rfl
    rw [hnone] at hfd
    cases hfd
  · rw [keep_reading, wp_bind, wp_update, wp_bind]
    refine Kernel.wp_close ?_ (hd.closes wr) (hQ _ _ (hd.close ?_) ?_ (update_of_ne src.other_ne _ _))
    · rw [show (wr ∈ s.kernel.fds) ↔ _ from hd.perm.mem_iff, hheld.mem_iff]
      exact List.mem_cons_of_mem _ List.mem_cons_self
    · refine hheld.trans ((List.Perm.swap wr rd _).trans (List.Perm.cons wr ?_))
      exact List.perm_middle.symm.trans ((held_keep_reading hnone rd).symm.append_left others')
    · intro fd hfd
      rw [update_self] at hfd
      cases hfd
      exact List.mem_cons_self

/-- There is a child, and the pipes that were made for it are new. -/
structure Forked (s : Process) (mode : pmode) (t : Process) : Prop where
  heap : t.heap = s.heap
  fresh : s.kernel.fresh ≤ t.kernel.fresh
  written : t.kernel.written = s.kernel.written
  received : t.kernel.received = s.kernel.received
  descriptors : Descriptors t.kernel t.buf []
  buf : t.buf = { s.buf with
    ppid_ := t.buf.ppid_, wpipe_ := t.buf.wpipe_, rpipe_ := t.buf.rpipe_, error_ := t.buf.error_ }
  child : 0 < t.buf.ppid_
  wpipe : ∀ fd, t.buf.wpipe_ = some fd → s.kernel.fresh ≤ fd ∧ mode.pstdin = true
  rpipe_out : ∀ fd, t.buf.rpipe_ .rsrc_out = some fd → s.kernel.fresh ≤ fd ∧ mode.pstdout = true
  rpipe_err : ∀ fd, t.buf.rpipe_ .rsrc_err = some fd → s.kernel.fresh ≤ fd ∧ mode.pstderr = true

/-- What is kept of a pipe is new, and was asked for. -/
theorem new_and_wanted {ends : Option (Nat × Nat)} {fresh fresh' : Nat} {wanted : Bool}
    (hfresh : fresh ≤ fresh')
    (hnew : ∀ fd ∈ ends_fds ends, fresh' ≤ fd) (hwanted : wanted = false → ends = none) {fd : Nat}
    (hfd : fd ∈ ends_fds ends) : fresh ≤ fd ∧ wanted = true := by
  refine ⟨Nat.le_trans hfresh (hnew fd hfd), ?_⟩
  by_contra hnot
  rw [hwanted (Bool.eq_false_iff.mpr hnot)] at hfd
  cases hfd

/-- `fork` leaves the parent with the ends that the mode asks for, all of them new, or with none
    where a call has failed. The ends that the child uses are closed in either case. -/
theorem fork_spec (hd : Descriptors s.kernel s.buf []) (hw : s.buf.wpipe_ = none)
    (hr : ∀ src, s.buf.rpipe_ src = none) (mode : pmode) :
    wp (fork mode) (fun forked t => (forked = false → s.Piped t ∧ Descriptors t.kernel s.buf []) ∧
      (forked = true → Forked s mode t)) s := by
  rw [fork, wp_bind]
  refine wp_mono ?_ (make_pipe_spec hd mode.pstdin)
  rintro pin t₁ ⟨hpiped₁, hd₁, hnew₁, hwanted₁⟩
  rw [wp_bind]
  refine wp_mono ?_ (make_pipe_spec hd₁ mode.pstdout)
  rintro pout t₂ ⟨hpiped₂, hd₂, hnew₂, hwanted₂⟩
  rw [wp_bind]
  refine wp_mono ?_ (make_pipe_spec hd₂ mode.pstderr)
  rintro perr t₃ ⟨hpiped₃, hd₃, hnew₃, hwanted₃⟩
  have hpiped₁₂ := hpiped₁.trans hpiped₂
  have hpiped := hpiped₁₂.trans hpiped₃
  rw [wp_bind, wp_self]
  -- what is left of the pipes in the two cases without a child
  have hnone : ∀ u : Process, t₃.Piped u → Descriptors u.kernel s.buf [] →
      (false = false → s.Piped u ∧ Descriptors u.kernel s.buf []) ∧ (false = true → Forked s mode u) :=
    fun u hu hd' => ⟨fun _ => ⟨hpiped.trans hu, hd'⟩, fun h => (by cases h)⟩
  refine wp_ite (fun _ => ?_) fun _ => ?_
  · rw [wp_bind]
    refine wp_next ?_
    rintro (errno | pid) forks
    · simp only [wp_bind]
      have hd₄ : Descriptors { t₃.kernel with forks } s.buf
          (ends_fds perr ++ (ends_fds pout ++ (ends_fds pin ++ []))) :=
        ⟨hd₃.perm, hd₃.nodup, hd₃.below, hd₃.unwritten, hd₃.unread, hd₃.closes⟩
      refine wp_close_pipes hd₄ fun fds hd' => ?_
      exact hnone _ ⟨rfl, Nat.le_refl _, rfl, rfl, rfl⟩ hd'
    · obtain ⟨kernel, e, rfl⟩ := hpiped.eq
      simp only [wp_bind]
      rw [wp_update]
      let u : Process := ⟨s.heap, { kernel with forks }, { s.buf with error_ := e, ppid_ := pid + 1 }⟩
      have hdu : Descriptors u.kernel u.buf (ends_fds perr ++ (ends_fds pout ++ (ends_fds pin ++ []))) :=
        ⟨hd₃.perm, hd₃.nodup, hd₃.below, hd₃.unwritten, hd₃.unread, hd₃.closes⟩
      refine wp_keep_writing hdu (perm_pipes pin pout perr) hw fun fds wpipe hdw hwpipe => ?_
      refine wp_keep_reading hdw List.perm_append_comm (hr .rsrc_out) fun fds' rpipe hdr hrpipe hother => ?_
      have herr : rpipe .rsrc_err = none := hother.trans (hr .rsrc_err)
      refine wp_keep_reading hdr (by rw [List.append_nil]) herr fun fds'' rpipe' hdr' hrpipe' hother' => ?_
      rw [wp_pure]
      refine ⟨fun h => (by cases h), fun _ =>
        ⟨rfl, hpiped.fresh, hpiped.written, hpiped.received, hdr', rfl, ?_, ?_, ?_, ?_⟩⟩
      · change (0 : Int) < pid + 1
        omega
      · exact fun fd hfd => new_and_wanted (Nat.le_refl _) hnew₁ hwanted₁ (hwpipe fd hfd)
      · refine fun fd hfd => new_and_wanted hpiped₁.fresh hnew₂ hwanted₂ (hrpipe fd ?_)
        rw [← hfd]
        exact hother'.symm
      · exact fun fd hfd => new_and_wanted hpiped₁₂.fresh hnew₃ hwanted₃ (hrpipe' fd hfd)
  · simp only [wp_bind]
    refine wp_close_pipes hd₃ fun fds hd' => ?_
    exact hnone _ ⟨rfl, Nat.le_refl _, rfl, rfl, rfl⟩ hd'

/-- The buffers are being created: the areas are empty, and what is allocated is one of the buffers. -/
structure Creating (s t : Process) : Prop where
  kernel : t.kernel = s.kernel
  buf : t.buf = { s.buf with
    wbuffer_ := t.buf.wbuffer_, rbuffer_ := t.buf.rbuffer_, rsrc_ := t.buf.rsrc_, area := t.buf.area,
    pbase := t.buf.pbase, pptr := t.buf.pptr, epptr := t.buf.epptr }
  arrays : Arrays t.heap t.buf.wbuffer_ t.buf.rbuffer_
  pending : Pending t.heap t.buf []
  shows : Shows t.heap (t.buf.rbuffer_ t.buf.rsrc_) t.buf.area .none
  load : ∀ p, t.heap.load p = s.heap.load p

/-- The write buffer is made. -/
theorem create_wbuffer_spec {t : Process} (hc : Creating s t) (hnull : t.buf.wbuffer_ = .null) :
    wp create_wbuffer (fun _ u => Creating s u ∧ u.buf.rbuffer_ = t.buf.rbuffer_ ∧
      u.buf.rsrc_ = t.buf.rsrc_) t := by
  have ha := hc.arrays
  rw [hnull] at ha
  have hdelete : t.heap.delete t.buf.wbuffer_ = some t.heap := by rw [hnull]; rfl
  rw [create_wbuffer, wp_bind, wp_self, wp_bind]
  refine wp_onHeap hdelete ?_
  rw [wp_bind, wp_new, wp_bind, wp_update, setp, wp_update]
  have hload p := (Heap.load_new t.heap bufsz p).trans (hc.load p)
  refine ⟨⟨hc.kernel, ?_, ha.new_wbuffer, ?_, hc.shows.frame (Heap.same_new _ _ _), hload⟩, rfl, rfl⟩
  · rw [hc.buf]
  · have hplace : (Pointer.into t.heap.arrays.length 0).add bufsz = .into t.heap.arrays.length bufsz := by
      rw [Pointer.add_into, Nat.zero_add]
    exact .inr ⟨_, rfl, rfl, rfl, hplace, Nat.zero_le _, (Heap.live_new _ _ _ _).mpr (.inl ⟨rfl, rfl⟩), .nil⟩

/-- The buffer of a source is made, and taken into use if it is to be the first. -/
theorem create_rbuffer_spec {t : Process} (hc : Creating s t) {src : buf_read_src} {active : Bool}
    (hnull : t.buf.rbuffer_ src = .null) (hactive : active = false → t.buf.rsrc_ ≠ src) :
    wp (create_rbuffer src active) (fun _ u => Creating s u ∧ u.buf.rbuffer_ src ≠ .null ∧
      u.buf.rbuffer_ src.other = t.buf.rbuffer_ src.other ∧
      u.buf.rsrc_ = if active then src else t.buf.rsrc_) t := by
  have ha := hc.arrays.new_rbuffer hnull
  have hp := hc.pending.frame (Heap.same_new _ bufsz _) rfl rfl rfl rfl
  have hdelete : t.heap.delete (t.buf.rbuffer_ src) = some t.heap := by rw [hnull]; rfl
  rw [create_rbuffer, wp_bind, wp_self, wp_bind]
  refine wp_onHeap hdelete ?_
  rw [wp_bind, wp_new, wp_bind, wp_update]
  have hload p := (Heap.load_new t.heap bufsz p).trans (hc.load p)
  have hself := update_self src (t.heap.new bufsz).1 t.buf.rbuffer_
  have hother := update_of_ne src.other_ne (t.heap.new bufsz).1 t.buf.rbuffer_
  have hsome : Function.update t.buf.rbuffer_ src (t.heap.new bufsz).1 src ≠ .null := by
    rw [hself]
    exact fun h => by cases h
  refine wp_when (fun hon => ?_) fun hoff => ?_
  · rw [wp_bind, wp_update, setg, wp_update]
    refine ⟨⟨hc.kernel, ?_, ha, hp, ?_, hload⟩, hsome, hother, ?_⟩
    · rw [hc.buf]
    · refine .of_into t.heap.arrays.length pbsz hself ?_ (by decide) .nil
      rw [Heap.new, Pointer.add_into, Nat.zero_add]
      rfl
    · rw [if_pos hon]
  · refine ⟨⟨hc.kernel, ?_, ha, hp, ?_, hload⟩, hsome, hother, ?_⟩
    · rw [hc.buf]
    · change Shows _ (Function.update t.buf.rbuffer_ src (t.heap.new bufsz).1 t.buf.rsrc_) t.buf.area .none
      rw [update_of_ne (hactive hoff)]
      exact hc.shows.frame (Heap.same_new _ _ _)
    · rw [hoff]
      rfl

/-- The buffers that the mode asks for are made, and stdout is taken first if there is one. Nothing
    may be left of earlier buffers. -/
theorem create_buffers_spec (hc : Creating s s) (hw : s.buf.wbuffer_ = .null)
    (hr : ∀ src, s.buf.rbuffer_ src = .null)
    (mode : pmode) : wp (create_buffers mode) (fun _ u => Creating s u ∧
      (mode.pstdout = true → u.buf.rbuffer_ .rsrc_out ≠ .null) ∧
      (mode.pstderr = true → u.buf.rbuffer_ .rsrc_err ≠ .null) ∧
      u.buf.rsrc_ = if mode.pstdout then .rsrc_out else if mode.pstderr then .rsrc_err else s.buf.rsrc_) s := by
  have hstdin : wp (when mode.pstdin create_wbuffer)
      (fun _ t => Creating s t ∧ t.buf.rbuffer_ = s.buf.rbuffer_ ∧ t.buf.rsrc_ = s.buf.rsrc_) s :=
    wp_when (fun _ => create_wbuffer_spec hc hw) fun _ => ⟨hc, rfl, rfl⟩
  rw [create_buffers, wp_bind]
  refine wp_mono ?_ hstdin
  rintro ⟨⟩ t ⟨ht, htbuffers, htsource⟩
  have hstdout : wp (when mode.pstdout (create_rbuffer .rsrc_out true)) (fun _ u => Creating s u ∧
      (mode.pstdout = true → u.buf.rbuffer_ .rsrc_out ≠ .null) ∧ u.buf.rbuffer_ .rsrc_err = .null ∧
      u.buf.rsrc_ = if mode.pstdout then .rsrc_out else s.buf.rsrc_) t := by
    refine wp_when (fun hon => ?_) fun hoff => ?_
    · refine wp_mono ?_ (create_rbuffer_spec ht (by rw [htbuffers]; exact hr _) fun h => (by cases h))
      rintro ⟨⟩ u ⟨hu, hsome, hother, hsource⟩
      refine ⟨hu, fun _ => hsome, ?_, ?_⟩
      · refine hother.trans ?_
        rw [htbuffers]
        exact hr _
      · rw [hsource, hon]
        rfl
    · refine ⟨ht, fun h => ?_, ?_, ?_⟩
      · rw [hoff] at h
        cases h
      · rw [htbuffers]
        exact hr _
      · rw [htsource, hoff]
        rfl
  rw [wp_bind]
  refine wp_mono ?_ hstdout
  rintro ⟨⟩ u ⟨hu, hout, herr, husource⟩
  refine wp_when (fun hon => ?_) fun hoff => ?_
  · refine wp_mono ?_ (create_rbuffer_spec hu herr ?_)
    · rintro ⟨⟩ v ⟨hv, hsome, hother, hsource⟩
      refine ⟨hv, fun h => ?_, fun _ => hsome, ?_⟩
      · rw [show v.buf.rbuffer_ .rsrc_out = u.buf.rbuffer_ .rsrc_out from hother]
        exact hout h
      · rw [hsource, husource, hon]
        cases mode.pstdout <;> rfl
    · intro hactive
      rw [husource]
      cases hmode : mode.pstdout with
      | true => exact fun h => by cases h
      | false =>
        rw [hmode] at hactive
        cases hactive
  · refine ⟨hu, hout, fun h => ?_, ?_⟩
    · rw [hoff] at h
      cases h
    · rw [husource, hoff]
      rfl

/-- A buffer that is open is not opened again. -/
theorem not_open_spec {mode : pmode} (hs : s.Sound contents pending) (hreadable : s.Readable)
    (hopen : s.buf.is_open = true) :
    wp (openCommand mode) (Leaves ((s.queues contents pending).Opens mode)) s := by
  rw [openCommand, wp_bind, wp_self, if_pos hopen, wp_pure]
  exact ⟨hreadable, contents, pending, hs, .not_opened (Nat.le_refl _)⟩

/-- What `open` of a command leaves of a process that has been closed. -/
structure Opened (s : Process) (mode : pmode) (u : Process) : Prop where
  readable : u.Readable
  descriptors : Descriptors u.kernel u.buf []
  arrays : Arrays u.heap u.buf.wbuffer_ u.buf.rbuffer_
  pending : Pending u.heap u.buf []
  shows : Shows u.heap (u.buf.rbuffer_ u.buf.rsrc_) u.buf.area .none
  load : ∀ p, u.heap.load p = s.heap.load p
  saved : u.buf.rbufstate_ = s.buf.rbufstate_
  source : u.buf.rsrc_ = if mode.pstdout then .rsrc_out else if mode.pstderr then .rsrc_err else s.buf.rsrc_
  child : 0 < u.buf.ppid_
  fresh : s.kernel.fresh ≤ u.kernel.fresh
  written : u.kernel.written = s.kernel.written
  received : u.kernel.received = s.kernel.received
  wpipe : ∀ fd, u.buf.wpipe_ = some fd → s.kernel.fresh ≤ fd ∧ mode.pstdin = true
  rpipe_out : ∀ fd, u.buf.rpipe_ .rsrc_out = some fd → s.kernel.fresh ≤ fd ∧ mode.pstdout = true
  rpipe_err : ∀ fd, u.buf.rpipe_ .rsrc_err = some fd → s.kernel.fresh ≤ fd ∧ mode.pstderr = true

/-- Opening a closed buffer, in its three ways to end: it is taken for open, since a child has not
    been waited for, a call has failed, or the new child is there. -/
theorem wp_openCommand {Q : Bool → Process → Prop} {mode : pmode} (hc : s.Closed) (hself : Q false s)
    (hnot : ∀ kernel e, s.Piped ⟨s.heap, kernel, { s.buf with error_ := e }⟩ → Descriptors kernel s.buf [] →
      Q false ⟨s.heap, kernel, { s.buf with error_ := e }⟩)
    (hopened : ∀ u, Opened s mode u → Q true u) : wp (openCommand mode) Q s := by
  have hl := hc.sound.layout
  rw [openCommand, wp_bind, wp_self]
  refine wp_ite (fun _ => hself) fun _ => ?_
  rw [wp_bind]
  refine wp_mono ?_ (fork_spec hc.sound.descriptors hc.wpipe hc.rpipe mode)
  rintro (_ | _) t ⟨hpiped, hforked⟩
  · obtain ⟨hpiped, hd⟩ := hpiped rfl
    obtain ⟨kernel, e, rfl⟩ := hpiped.eq
    exact hnot kernel e hpiped hd
  · obtain ⟨hheap, hfresh, hwritten, hreceived, hd, hbuf, hchild, hwpipe, hout, herr⟩ := hforked rfl
    have hw : t.buf.wbuffer_ = .null := by
      rw [hbuf]
      exact hc.wbuffer
    have hr : t.buf.rbuffer_ = s.buf.rbuffer_ := by rw [hbuf]
    have hcreating : Creating t t := by
      refine ⟨rfl, rfl, ?_, ?_, ?_, fun _ => rfl⟩
      · rw [hheap, hbuf]
        exact hl.arrays
      · rw [hheap, hbuf]
        exact hl.pending
      · rw [hheap, hbuf]
        exact hl.shows
    rw [if_pos rfl, wp_bind]
    refine wp_mono ?_ (create_buffers_spec hcreating hw (fun src => by rw [hr]; exact hc.rbuffer src) mode)
    rintro ⟨⟩ u ⟨hu, hsomeout, hsomeerr, hsource⟩
    have hwp : u.buf.wpipe_ = t.buf.wpipe_ := by rw [hu.buf]
    have hrp : u.buf.rpipe_ = t.buf.rpipe_ := by rw [hu.buf]
    refine hopened u ⟨?_, ?_, hu.arrays, hu.pending, hu.shows, ?_, ?_, ?_, ?_, ?_, ?_, ?_, ?_, ?_, ?_⟩
    · rintro (_ | _) hpipe
      · obtain ⟨fd, hfd⟩ := Option.ne_none_iff_exists.mp hpipe
        rw [hrp] at hfd
        exact hsomeout (hout fd hfd.symm).2
      · obtain ⟨fd, hfd⟩ := Option.ne_none_iff_exists.mp hpipe
        rw [hrp] at hfd
        exact hsomeerr (herr fd hfd.symm).2
    · rw [hu.kernel, hu.buf]
      exact hd.of_held (.refl _)
    · intro p
      rw [hu.load p, hheap]
    · rw [hu.buf, hbuf]
    · rw [hsource, show t.buf.rsrc_ = s.buf.rsrc_ by rw [hbuf]]
    · rw [hu.buf]
      exact hchild
    · rw [hu.kernel]
      exact hfresh
    · rw [hu.kernel]
      exact hwritten
    · rw [hu.kernel]
      exact hreceived
    · rw [hwp]
      exact hwpipe
    · rw [hrp]
      exact hout
    · rw [hrp]
      exact herr

/-- Without `pstdout` or `pstderr` there is no pipe of the source that is not read. -/
theorem Opened.both {mode : pmode} {u : Process} (hu : Opened s mode u)
    (hpipe : u.buf.rpipe_ u.buf.rsrc_.other ≠ none) : mode.pstdout = true ∧ mode.pstderr = true := by
  have hout (h : u.buf.rpipe_ .rsrc_out ≠ none) : mode.pstdout = true := by
    obtain ⟨fd, hfd⟩ := Option.ne_none_iff_exists.mp h
    exact (hu.rpipe_out fd hfd.symm).2
  have herr (h : u.buf.rpipe_ .rsrc_err ≠ none) : mode.pstderr = true := by
    obtain ⟨fd, hfd⟩ := Option.ne_none_iff_exists.mp h
    exact (hu.rpipe_err fd hfd.symm).2
  have hsource := hu.source
  cases hon : mode.pstdout
  · rw [hon, if_neg Bool.false_ne_true] at hsource
    rw [hon] at hout
    cases hother : u.buf.rsrc_.other <;> rw [hother] at hpipe
    · exact absurd (hout hpipe) Bool.false_ne_true
    · rw [herr hpipe, if_pos rfl] at hsource
      rw [hsource] at hother
      cases hother
  · rw [hon, if_pos rfl] at hsource
    rw [hsource] at hpipe
    exact ⟨rfl, herr hpipe⟩

/-- A closed buffer can be opened. Of both sources only if nothing is put by for the second. -/
theorem openCommand_spec {mode : pmode} (hc : s.Closed)
    (hsaved : mode.pstdout = true → mode.pstderr = true → s.buf.rbufstate_ = .NULL) :
    wp (openCommand mode) (Leaves ((s.queues (fun _ => .none) []).Opens mode)) s := by
  have hs := hc.sound
  have hclosed : (s.queues (fun _ => .none) []).closed = s.queues (fun _ => .none) [] := by
    have hrpipe : s.buf.rpipe_ = fun _ => none := funext hc.rpipe
    simp only [Queues.closed, Queues.ended, Process.queues, hc.wpipe, hrpipe]
  have hself : Leaves ((s.queues (fun _ => .none) []).Opens mode) false s :=
    ⟨hc.readable, _, _, hs, .not_opened (Nat.le_refl _)⟩
  refine wp_openCommand hc hself (fun kernel e hpiped hd => ?_) fun u hu => ?_
  · have hq : Process.queues ⟨s.heap, kernel, { s.buf with error_ := e }⟩ (fun _ => .none) [] =
        { s.queues (fun _ => .none) [] with fresh := kernel.fresh } := by
      simp only [Process.queues, show kernel.written = _ from hpiped.written,
        show kernel.received = _ from hpiped.received]
    refine ⟨hc.readable, _, _, ⟨hs.layout.error e, hd.of_held (.refl _), hs.idle⟩, ?_⟩
    rw [hq]
    exact .not_opened hpiped.fresh
  · have hq : u.queues (fun _ => .none) [] = { s.queues (fun _ => .none) [] with
        source := u.buf.rsrc_, wpipe := u.buf.wpipe_, rpipe := u.buf.rpipe_, fresh := u.kernel.fresh } := by
      simp only [Process.queues, hu.written, hu.received]
    refine ⟨hu.readable, fun _ => .none, [],
      ⟨⟨hu.pending, hu.shows, fun hpipe => ?_, fun _ _ => rfl, hu.arrays.rbuffer,
      hu.arrays.apart, hu.arrays.apart_rbuffers, hu.arrays.owned⟩, hu.descriptors, fun hdead => ?_⟩, ?_⟩
    · obtain ⟨hout, herr⟩ := hu.both hpipe
      rw [hu.saved, hsaved hout herr]
      exact .none _
    · have hchild := hu.child
      omega
    · rw [hq]
      refine .opened hu.fresh hclosed (fun fd hfd => (hu.wpipe fd hfd).1) ?_ (fun hoff => ?_) hu.source
      · rintro (_ | _) fd hfd
        · exact (hu.rpipe_out fd hfd).1
        · exact (hu.rpipe_err fd hfd).1
      · cases hpipe : u.buf.wpipe_ with
        | none => rfl
        | some fd => exact absurd (hu.wpipe fd hpipe).2 (by rw [hoff]; exact Bool.false_ne_true)

end basic_pstreambuf

end

end taraxacum.pstream
