import Taraxacum.Pstream.Layout

open json memory program Program Function

namespace taraxacum.pstream

/-- A source that has a pipe has a buffer. -/
def Process.Readable (s : Process) : Prop := ∀ src, s.buf.rpipe_ src ≠ none → s.buf.rbuffer_ src ≠ .null

/-- What an operation leaves: everything is in order, and the queues are what `R` says. -/
def Leaves {α : Type} (R : α → Queues → Prop) (r : α) (t : Process) : Prop :=
  t.Readable ∧ ∃ contents pending, t.Sound contents pending ∧ R r (t.queues contents pending)

/-- The kernel has gone on, but what has gone through the pipes is what it was, `received` apart. -/
structure Kernel.Goes (k k' : Kernel) (received : Nat → Bytes) : Prop where
  fds : k'.fds = k.fds
  fresh : k'.fresh = k.fresh
  written : k'.written = k.written
  received : k'.received = received
  closes : k'.closes = k.closes

section
variable {h h' : Heap UInt8} {buf : basic_pstreambuf} {contents : buf_read_src → Contents} {pending : Bytes}

/-- A buffer stays allocated while no array comes or goes. -/
theorem Allocated.of_live {p : Pointer} (hp : Allocated h p) (hlive : ∀ b n, h'.Live b n ↔ h.Live b n) :
    Allocated h' p := by
  rcases hp with hnull | ⟨b, hb, hb'⟩
  · exact .inl hnull
  · exact .inr ⟨b, hb, (hlive b bufsz).mpr hb'⟩

/-- Only the get area and its buffer are changed. -/
theorem Layout.refill (hl : Layout h buf contents pending) {area : Area} {e : Int} {c : Contents}
    (hwithin : Heap.Within h h' (buf.rbuffer_ buf.rsrc_)) (hshows : Shows h' (buf.rbuffer_ buf.rsrc_) area c)
    (hpipe : buf.rpipe_ buf.rsrc_ = none → c = .none) :
    Layout h' { buf with area, error_ := e } (update contents buf.rsrc_ c) pending where
  pending := by
    refine hl.pending.frame (hwithin.same _ ?_) rfl rfl rfl rfl
    intro b i j hb
    rcases hl.allocated buf.rsrc_ with hnull | ⟨b', hb', -⟩
    · rw [hnull] at hb
      cases hb
    · rw [hb', Pointer.into.injEq] at hb
      rw [← hb.1]
      exact hl.apart_wbuffer hb' j
  shows := by
    rw [update_self]
    exact hshows
  saved hpipe := by
    rw [update_of_ne buf.rsrc_.other_ne]
    refine (hl.saved hpipe).frame (hwithin.same _ ?_)
    intro b i j hb
    rcases hl.allocated buf.rsrc_ with hnull | ⟨b', hb', -⟩
    · rw [hnull] at hb
      cases hb
    · rw [hb', Pointer.into.injEq] at hb
      rw [← hb.1]
      exact hl.apart_other hb' j
  unopened src hsrc := by
    by_cases hactive : src = buf.rsrc_
    · subst hactive
      rw [update_self]
      exact hpipe hsrc
    · rw [update_of_ne hactive]
      exact hl.unopened src hsrc
  allocated src := (hl.allocated src).of_live hwithin.live
  apart := hl.apart
  apart_rbuffers := hl.apart_rbuffers
  owned b n hlive := hl.owned b n ((hwithin.live b n).mp hlive)

end

/-- The error of the last call is no part of the layout. -/
theorem Layout.error {h : Heap UInt8} {buf : basic_pstreambuf} {contents : buf_read_src → Contents}
    {pending : Bytes}
    (hl : Layout h buf contents pending) (e : Int) : Layout h { buf with error_ := e } contents pending :=
  ⟨hl.pending, hl.shows, hl.saved, hl.unopened, hl.allocated, hl.apart, hl.apart_rbuffers, hl.owned⟩

section
variable {s : Process} {contents : buf_read_src → Contents} {pending : Bytes}

/-- The reading ends that are held are open. -/
theorem Descriptors.mem_rpipe {k : Kernel} {buf : basic_pstreambuf} {others : List Nat}
    (hd : Descriptors k buf others)
    {src : buf_read_src} {fd : Nat} (hfd : buf.rpipe_ src = some fd) : fd ∈ k.fds := by
  rw [hd.perm.mem_iff]
  cases src <;> simp [basic_pstreambuf.held, hfd]

/-- The writing end that is held is open. -/
theorem Descriptors.mem_wpipe {k : Kernel} {buf : basic_pstreambuf} {others : List Nat}
    (hd : Descriptors k buf others)
    {fd : Nat} (hfd : buf.wpipe_ = some fd) : fd ∈ k.fds := by
  rw [hd.perm.mem_iff]
  simp [basic_pstreambuf.held, hfd]

/-- The descriptors do not change with the kernel's answers or with what goes through them. -/
theorem Descriptors.goes {k k' : Kernel} {buf buf' : basic_pstreambuf} {received : Nat → Bytes}
    (hd : Descriptors k buf []) (hk : k.Goes k' received) (hheld : buf'.held = buf.held)
    (hreceived : ∀ fd, k.fresh ≤ fd → received fd = []) : Descriptors k' buf' [] where
  perm := by rw [hk.fds, hheld]; exact hd.perm
  nodup := by rw [hk.fds]; exact hd.nodup
  below := by rw [hk.fds, hk.fresh]; exact hd.below
  unwritten := by rw [hk.fresh, hk.written]; exact hd.unwritten
  unread := by rw [hk.fresh, hk.received]; exact hreceived
  closes := by rw [hk.closes]; exact hd.closes

/-- Nothing has been received from descriptors that are still to come. -/
theorem Descriptors.unread_update {k : Kernel} {buf : basic_pstreambuf} (hd : Descriptors k buf [])
    {fd : Nat} {bs : Bytes}
    (hfd : fd ∈ k.fds) : ∀ fd', k.fresh ≤ fd' → update k.received fd bs fd' = [] := by
  intro fd' hfresh
  have hbelow := hd.below fd hfd
  rw [update_of_ne (by omega)]
  exact hd.unread fd' hfresh

/-- A call of the system that fails changes only what the system answers next, and the error. -/
theorem Process.Sound.error (hs : s.Sound contents pending) {kernel : Kernel}
    (hk : s.kernel.Goes kernel s.kernel.received)
    (e : Int) : Process.Sound { s with kernel, buf := { s.buf with error_ := e } } contents pending :=
  ⟨hs.layout.error e, hs.descriptors.goes hk rfl hs.descriptors.unread, hs.idle⟩

/-- The queues after a change of the get area. -/
theorem Process.queues_refill {heap : Heap UInt8} {kernel : Kernel} {received : Nat → Bytes}
    (hk : s.kernel.Goes kernel received) (area : Area) (e : Int) (contents' : buf_read_src → Contents) :
    Process.queues ⟨heap, kernel, { s.buf with area, error_ := e }⟩ contents' pending =
      { s.queues contents pending with contents := contents', received } := by
  simp only [Process.queues, hk.fresh, hk.written, hk.received]

namespace basic_pstreambuf

open Process

/-- What `read` leaves of the process: octets behind the place for two to be put back, or nothing. -/
inductive Fetched (s : Process) (non_blocking : Bool) : Int → Process → Prop where
  | data {fd : Nat} {bs : Bytes} {heap : Heap UInt8} {kernel : Kernel} {e : Int}
      (hfd : s.buf.rpipe_ s.buf.rsrc_ = some fd) (hlength : bs.length ≤ bufsz - pbsz)
      (hbs : non_blocking = false → bs ≠ [])
      (hstored : ∀ b, s.buf.rbuffer_ s.buf.rsrc_ = .into b 0 → Heap.Stored s.heap heap (.into b pbsz) bs)
      (hk : s.kernel.Goes kernel (update s.kernel.received fd (s.kernel.received fd ++ bs))) :
      Fetched s non_blocking bs.length { heap, kernel, buf := { s.buf with error_ := e } }
  | nothing {rc : Int} {heap : Heap UInt8} {kernel : Kernel} {e : Int}
      (hrc : ¬(0 < rc ∨ rc = 0 ∧ non_blocking = true))
      (hheap : Heap.Within s.heap heap (s.buf.rbuffer_ s.buf.rsrc_))
      (hk : s.kernel.Goes kernel s.kernel.received) :
      Fetched s non_blocking rc { heap, kernel, buf := { s.buf with error_ := e } }

/-- `read` asks the system once more after each `EINTR`, and stores behind the place for putback. -/
theorem wp_read {Q : Int → Process → Prop} (hd : Descriptors s.kernel s.buf [])
    (hallocated : Allocated s.heap (s.buf.rbuffer_ s.buf.rsrc_)) (hreadable : s.Readable)
    (hnone : s.buf.rpipe_ s.buf.rsrc_ = none → Q 0 s)
    (herror : ∀ fd errno kernel, s.buf.rpipe_ s.buf.rsrc_ = some fd → s.kernel.Goes kernel s.kernel.received →
      Q (-1) { s with kernel, buf := { s.buf with error_ := errno } })
    (hok : ∀ fd bs b heap kernel, s.buf.rpipe_ s.buf.rsrc_ = some fd → bs.length ≤ bufsz - pbsz →
      s.buf.rbuffer_ s.buf.rsrc_ = .into b 0 → Heap.Stored s.heap heap (.into b pbsz) bs →
      s.kernel.Goes kernel (update s.kernel.received fd (s.kernel.received fd ++ bs)) →
      Q bs.length { s with heap, kernel }) :
    wp (read ((s.buf.rbuffer_ s.buf.rsrc_).add pbsz) (bufsz - pbsz)) Q s := by
  rw [read, wp_bind, wp_self]
  cases hpipe : s.buf.rpipe_ s.buf.rsrc_ with
  | none => exact hnone hpipe
  | some fd =>
    have hbuffer := hreadable _ (by rw [hpipe]; exact Option.some_ne_none fd)
    obtain ⟨b, hb, hlive⟩ := hallocated.resolve_left hbuffer
    rw [wp_bind, hb, Pointer.add_into, Nat.zero_add]
    refine Kernel.wp_read (hd.mem_rpipe hpipe) hlive (by decide) ?_ ?_
    · intro errno reads
      rw [wp_bind]
      exact herror fd errno _ hpipe ⟨rfl, rfl, rfl, rfl, rfl⟩
    · intro bs reads heap hbs hstored
      exact hok fd bs b heap _ hpipe hbs hb hstored ⟨rfl, rfl, rfl, rfl, rfl⟩

/-- A blocking `read` fetches octets, or nothing. -/
theorem read_fetched (hd : Descriptors s.kernel s.buf [])
    (hallocated : Allocated s.heap (s.buf.rbuffer_ s.buf.rsrc_)) (hreadable : s.Readable) :
    wp (read ((s.buf.rbuffer_ s.buf.rsrc_).add pbsz) (bufsz - pbsz)) (Fetched s false) s := by
  refine wp_read hd hallocated hreadable ?_ ?_ ?_
  · intro hnone
    exact .nothing (by simp) (.refl _ _) ⟨rfl, rfl, rfl, rfl, rfl⟩
  · intro fd errno kernel _ hk
    exact .nothing (by simp) (.refl _ _) hk
  · intro fd bs b heap kernel hfd hlength hb hstored hk
    cases bs with
    | nil =>
      have hsame : update s.kernel.received fd (s.kernel.received fd ++ []) = s.kernel.received := by simp
      rw [hsame] at hk
      exact .nothing (by simp) (by rw [hb]; exact hstored.within 0) hk
    | cons c cs =>
      refine .data hfd hlength (by simp) ?_ hk
      intro b' hb'
      rw [hb] at hb'
      cases hb'
      exact hstored

/-- A `read` that is not to wait fetches octets, or nothing, where no octets yet is an answer of its
    own. -/
theorem read_nonblocking_fetched (hd : Descriptors s.kernel s.buf [])
    (hallocated : Allocated s.heap (s.buf.rbuffer_ s.buf.rsrc_)) (hreadable : s.Readable) :
    wp (read_nonblocking ((s.buf.rbuffer_ s.buf.rsrc_).add pbsz) (bufsz - pbsz)) (Fetched s true) s := by
  rw [read_nonblocking, wp_bind, wp_self, wp_bind]
  refine Kernel.wp_fcntl (fun n hn => hd.mem_rpipe hn) ?_ ?_
  · intro hnone
    exact .nothing (by simp) (.refl _ _) ⟨rfl, rfl, rfl, rfl, rfl⟩
  rintro (errno | blocking) fcntls
  · exact .nothing (by simp) (.refl _ _) ⟨rfl, rfl, rfl, rfl, rfl⟩
  rw [wp_bind, set_error, wp_update, wp_bind]
  refine wp_read (hd.goes ⟨rfl, rfl, rfl, rfl, rfl⟩ rfl hd.unread) hallocated hreadable ?_ ?_ ?_
  · intro hnone
    exact .nothing (by simp) (.refl _ _) ⟨rfl, rfl, rfl, rfl, rfl⟩
  · intro fd errno kernel hfd hk
    rw [wp_bind, wp_self, wp_pure]
    split
    · have hsame : update s.kernel.received fd (s.kernel.received fd ++ []) = s.kernel.received := by simp
      refine @Fetched.data s true fd [] _ _ _ hfd (Nat.zero_le _) (fun h => by cases h)
        (fun b _ => .refl _ _) ?_
      rw [hsame]
      exact ⟨hk.fds, hk.fresh, hk.written, hk.received, hk.closes⟩
    · exact .nothing (by simp) (.refl _ _) ⟨hk.fds, hk.fresh, hk.written, hk.received, hk.closes⟩
  · intro fd bs b heap kernel hfd hlength hb hstored hk
    have hk' : s.kernel.Goes kernel (update s.kernel.received fd (s.kernel.received fd ++ bs)) :=
      ⟨hk.fds, hk.fresh, hk.written, hk.received, hk.closes⟩
    rw [wp_bind, wp_self, wp_pure, if_neg (by omega)]
    split
    · rename_i hzero
      obtain rfl : bs = [] := List.length_eq_zero_iff.mp (by omega)
      have hsame : update s.kernel.received fd (s.kernel.received fd ++ []) = s.kernel.received := by simp
      rw [hsame] at hk'
      refine .nothing (by simp) ?_ hk'
      rw [show s.buf.rbuffer_ s.buf.rsrc_ = .into b 0 from hb]
      exact hstored.within 0
    · refine .data hfd hlength (fun h => by cases h) ?_ hk'
      intro b' hb'
      rw [show s.buf.rbuffer_ s.buf.rsrc_ = .into b 0 from hb] at hb'
      cases hb'
      exact hstored

/-- Either of the two, as `fill_buffer` calls them. -/
theorem fetch_fetched (hd : Descriptors s.kernel s.buf [])
    (hallocated : Allocated s.heap (s.buf.rbuffer_ s.buf.rsrc_)) (hreadable : s.Readable)
    (non_blocking : Bool) :
    wp (fetch non_blocking ((s.buf.rbuffer_ s.buf.rsrc_).add pbsz) (bufsz - pbsz))
      (Fetched s non_blocking) s := by
  cases non_blocking with
  | false => exact read_fetched hd hallocated hreadable
  | true => exact read_nonblocking_fetched hd hallocated hreadable

/-- The octets that can still be put back are moved before the place for new ones. -/
theorem wp_keep {Q : Unit → Process → Prop} (hs : s.Sound contents pending)
    (hQ : ∀ heap, Heap.Within s.heap heap (s.buf.rbuffer_ s.buf.rsrc_) →
      (∀ b, s.buf.rbuffer_ s.buf.rsrc_ = .into b 0 → heap.Holds
        (.into b (pbsz - min (contents s.buf.rsrc_).before.length pbsz))
        ((contents s.buf.rsrc_).before.drop ((contents s.buf.rsrc_).before.length - pbsz))) →
      Q () { s with heap }) :
    wp (when (min (contents s.buf.rsrc_).before.length pbsz != 0)
      (move (((s.buf.rbuffer_ s.buf.rsrc_).add pbsz).sub (min (contents s.buf.rsrc_).before.length pbsz))
        (s.buf.area.gptr.sub (min (contents s.buf.rsrc_).before.length pbsz))
        (min (contents s.buf.rsrc_).before.length pbsz))) Q s := by
  set c := contents s.buf.rsrc_ with hc
  set npb := min c.before.length pbsz with hnpb
  have hkept : (c.before.drop (c.before.length - pbsz)).length = npb := by
    rw [List.length_drop]
    omega
  apply wp_when
  · intro hsome
    have hpos : npb ≠ 0 := by simpa using hsome
    rcases hs.layout.shows with ⟨-, hnone⟩ | ⟨b, i, hb, harea, hroom, hholds⟩
    · rw [← hc] at hnone
      rw [hnpb, hnone] at hpos
      exact absurd rfl hpos
    rw [← hc] at harea hroom hholds
    obtain ⟨b', hb', hlive⟩ := (hs.layout.allocated s.buf.rsrc_).resolve_left
      (by rw [hb]; exact fun h => by cases h)
    rw [hb, Pointer.into.injEq] at hb'
    obtain ⟨rfl, -⟩ := hb'
    have hbefore := hholds.left
    rw [← List.take_append_drop (c.before.length - pbsz) c.before] at hbefore
    have hlast := hbefore.right
    rw [List.length_take, Nat.min_eq_left (Nat.sub_le _ _)] at hlast
    rw [hb, harea]
    simp only [Pointer.add_into, Pointer.sub_into, Nat.zero_add]
    have hfrom : i + c.before.length - npb = i + (c.before.length - pbsz) := by omega
    obtain ⟨heap, hmove, hstored⟩ := Heap.move_into hlast hlive
      (show pbsz - npb + (c.before.drop (c.before.length - pbsz)).length ≤ bufsz by
        rw [hkept]
        have : pbsz ≤ bufsz := by decide
        omega)
    rw [hkept] at hmove
    rw [hfrom]
    refine wp_onHeap hmove (hQ heap ?_ ?_)
    · rw [hb]
      exact hstored.within 0
    · intro b' hb'
      rw [hb, Pointer.into.injEq] at hb'
      rw [← hb'.1]
      exact hstored.holds
  · intro hnone
    have hzero : npb = 0 := by simpa using hnone
    rw [hzero] at hkept
    refine hQ s.heap (.refl _ _) fun b _ => ?_
    rw [List.length_eq_zero_iff.mp hkept]
    exact .nil

/-- Filling the buffer keeps the last octets for putback and puts what has come behind them. If
    nothing has come the area is null, and nothing can be put back. -/
theorem fill_buffer_spec (hs : s.Sound contents pending) (hreadable : s.Readable) (non_blocking : Bool) :
    wp (fill_buffer non_blocking) (fun r t => t.Readable ∧ ∃ contents', t.Sound contents' pending ∧
      (s.queues contents pending).Fills non_blocking r (t.queues contents' pending)) s := by
  rw [fill_buffer, wp_bind, wp_self, wp_bind]
  refine wp_distance hs.layout.shows.distances.1 ?_
  dsimp only
  rw [wp_bind]
  refine wp_keep hs fun heap hheap hkept => ?_
  set c := contents s.buf.rsrc_ with hc
  have hfetched := @fetch_fetched { s with heap } hs.descriptors
    ((hs.layout.allocated s.buf.rsrc_).of_live hheap.live) hreadable non_blocking
  rw [wp_bind]
  refine wp_mono ?_ hfetched
  rintro rc t (⟨hfd, hlength, hbs, hstored, hk⟩ | ⟨hrc, hwithin, hk⟩)
  · rename_i fd bs heap' kernel e
    have hsome : 0 < (bs.length : Int) ∨ (bs.length : Int) = 0 ∧ non_blocking = true := by
      cases non_blocking with
      | true =>
        exact (Nat.eq_zero_or_pos bs.length).elim (fun h => .inr ⟨by omega, rfl⟩) fun h => .inl (by omega)
      | false =>
        have hpos := List.length_pos_iff.mpr (hbs rfl)
        omega
    have hbuffer := hreadable _ (by
      rw [show s.buf.rpipe_ s.buf.rsrc_ = some fd from hfd]
      exact Option.some_ne_none fd)
    obtain ⟨b, hb, -⟩ := (hs.layout.allocated s.buf.rsrc_).resolve_left hbuffer
    have hstored := hstored b hb
    have hkept := hstored.keeps (hkept b hb) (.inr (.inl (by rw [List.length_drop]; omega)))
    have hplace : pbsz - min c.before.length pbsz + (c.before.drop (c.before.length - pbsz)).length = pbsz := by
      rw [List.length_drop]
      omega
    rw [if_pos hsome, wp_bind, setg, wp_update, wp_pure]
    refine ⟨hreadable, update contents s.buf.rsrc_ ⟨c.before.drop (c.before.length - pbsz), bs⟩,
      ⟨?_, ?_, hs.idle⟩, ?_⟩
    · refine hs.layout.refill (hheap.trans ?_) (.inr ⟨b, pbsz - min c.before.length pbsz, hb, ?_, ?_, ?_⟩) ?_
      · rw [hb]
        exact hstored.within 0
      · rw [hplace, hb]
        simp only [Pointer.add_into, Pointer.sub_into, Nat.zero_add, Int.toNat_natCast]
      · rw [hplace]
        have hroom : pbsz ≤ bufsz := by decide
        change pbsz + bs.length ≤ bufsz
        omega
      · refine hkept.append ?_
        rw [hplace]
        exact hstored.holds
      · intro hnone
        rw [show s.buf.rpipe_ s.buf.rsrc_ = some fd from hfd] at hnone
        cases hnone
    · exact hs.descriptors.goes hk rfl (hs.descriptors.unread_update (hs.descriptors.mem_rpipe hfd))
    · have hqueues := @queues_refill s contents pending heap' kernel _ hk
      exact (congrArg _ (hqueues _ e _)).mpr (.filled hfd hlength hbs)
  · rw [if_neg hrc, wp_bind, setg, wp_update, wp_pure]
    refine ⟨hreadable, update contents s.buf.rsrc_ .none, ⟨?_, ?_, hs.idle⟩, ?_⟩
    · exact hs.layout.refill (hheap.trans hwithin) (.none _) fun _ => rfl
    · exact hs.descriptors.goes hk rfl hs.descriptors.unread
    · rename_i heap' kernel e
      have hqueues := @queues_refill s contents pending heap' kernel _ hk
      exact (congrArg _ (hqueues _ e _)).mpr .failed

end basic_pstreambuf

/-- What an operation on the get area leaves: everything is in order, and the queues are as `R` says. -/
def Reads {α : Type} (pending : Bytes) (R : α → Queues → Prop) (r : α) (t : Process) : Prop :=
  t.Readable ∧ ∃ contents, t.Sound contents pending ∧ R r (t.queues contents pending)

/-- What is known of what an operation leaves may be weakened. -/
theorem Leaves.mono {α β : Type} {R : α → Queues → Prop} {R' : β → Queues → Prop} {r : α} {r' : β} {t : Process}
    (hleaves : Leaves R r t) (hR : ∀ q, R r q → R' r' q) : Leaves R' r' t := by
  obtain ⟨hreadable, contents, pending, hs, hq⟩ := hleaves
  exact ⟨hreadable, contents, pending, hs, hR _ hq⟩

/-- An operation that leaves the put area alone is one that leaves a sound buffer. -/
theorem Reads.leaves {α β : Type} {pending : Bytes} {R : α → Queues → Prop} {R' : β → Queues → Prop}
    {r : α} {r' : β}
    {t : Process} (hreads : Reads pending R r t) (hR : ∀ q, R r q → R' r' q) : Leaves R' r' t := by
  obtain ⟨hreadable, contents, hs, hq⟩ := hreads
  exact ⟨hreadable, contents, pending, hs, hR _ hq⟩

section
variable {h : Heap UInt8} {rbuffer : Pointer} {area : Area} {before cs : Bytes} {c : UInt8}

/-- An area that is not empty lies in its buffer, and the buffer holds what it shows. -/
theorem Shows.into (hs : Shows h rbuffer area ⟨before, cs⟩) (hne : before ≠ [] ∨ cs ≠ []) :
    ∃ b i, rbuffer = .into b 0 ∧
      area = ⟨.into b i, .into b (i + before.length), .into b (i + before.length + cs.length)⟩ ∧
      i + before.length + cs.length ≤ bufsz ∧ h.Holds (.into b i) (before ++ cs) := by
  rcases hs with ⟨-, hnone⟩ | hinto
  · obtain ⟨rfl, rfl⟩ := Contents.mk.inj hnone
    simp at hne
  · exact hinto

/-- Such an area shows what the buffer holds there. -/
theorem Shows.of_into (b i : Nat) (hb : rbuffer = .into b 0)
    (harea : area = ⟨.into b i, .into b (i + before.length), .into b (i + before.length + cs.length)⟩)
    (hroom : i + before.length + cs.length ≤ bufsz) (hholds : h.Holds (.into b i) (before ++ cs)) :
    Shows h rbuffer area ⟨before, cs⟩ := .inr ⟨b, i, hb, harea, hroom, hholds⟩

/-- The next octet can be loaded. -/
theorem Shows.load (hs : Shows h rbuffer area ⟨before, c :: cs⟩) : h.load area.gptr = some c := by
  obtain ⟨b, i, -, rfl, -, hholds⟩ := hs.into (.inr (List.cons_ne_nil c cs))
  exact hholds.right.head

/-- Going on by one octet moves it to those that were read. -/
theorem Shows.pass (hs : Shows h rbuffer area ⟨before, c :: cs⟩) :
    Shows h rbuffer { area with gptr := area.gptr.add 1 } ⟨before ++ [c], cs⟩ := by
  obtain ⟨b, i, hb, rfl, hroom, hholds⟩ := hs.into (.inr (List.cons_ne_nil c cs))
  have hlength : (before ++ [c]).length = before.length + 1 := List.length_append
  rw [List.length_cons] at hroom
  refine .of_into b i hb ?_ ?_ ?_
  · rw [hlength, List.length_cons, Pointer.add_into,
      show i + (before.length + 1) = i + before.length + 1 by omega,
      show i + before.length + (cs.length + 1) = i + before.length + 1 + cs.length by omega]
  · omega
  · rwa [List.append_assoc]

/-- Going back by one octet finds the one that was read last. -/
theorem Shows.back (hs : Shows h rbuffer area ⟨before ++ [c], cs⟩) : h.load (area.gptr.sub 1) = some c ∧
    Shows h rbuffer { area with gptr := area.gptr.sub 1 } ⟨before, c :: cs⟩ := by
  obtain ⟨b, i, hb, rfl, hroom, hholds⟩ :=
    hs.into (.inl (List.append_ne_nil_of_right_ne_nil _ (List.cons_ne_nil c [])))
  have hlength : (before ++ [c]).length = before.length + 1 := List.length_append
  have hplace : i + (before.length + 1) - 1 = i + before.length := by omega
  rw [hlength] at hroom ⊢
  rw [List.append_assoc] at hholds
  rw [Pointer.sub_into, hplace]
  refine ⟨hholds.right.head, .of_into b i hb ?_ ?_ hholds⟩
  · rw [List.length_cons, show i + (before.length + 1) + cs.length =
      i + before.length + (cs.length + 1) by omega]
  · rw [List.length_cons]
    omega

/-- The octet that is put back may be another. -/
theorem Shows.amend (hs : Shows h rbuffer area ⟨before ++ [c], cs⟩) (hallocated : Allocated h rbuffer)
    (d : UInt8) :
    ∃ h', h.store (area.gptr.sub 1) d = some h' ∧ Heap.Within h h' rbuffer ∧
      Shows h' rbuffer { area with gptr := area.gptr.sub 1 } ⟨before, d :: cs⟩ := by
  obtain ⟨b, i, rfl, rfl, hroom, hholds⟩ :=
    hs.into (.inl (List.append_ne_nil_of_right_ne_nil _ (List.cons_ne_nil c [])))
  obtain ⟨b', hb', hlive⟩ := hallocated.resolve_left fun h => by cases h
  obtain ⟨rfl, -⟩ := Pointer.into.inj hb'
  have hlength : (before ++ [c]).length = before.length + 1 := List.length_append
  have hplace : i + (before.length + 1) - 1 = i + before.length := by omega
  have hbefore := hholds.left.left
  have hcs := hholds.right
  rw [hlength] at hroom hcs ⊢
  obtain ⟨h', hstores, hstored⟩ := Heap.stores_into hlive (show i + before.length + [d].length ≤ bufsz by
    rw [List.length_singleton]
    omega)
  have hd : h'.Holds (.into b (i + before.length)) ([d] ++ cs) :=
    hstored.holds.append (hstored.keeps hcs (.inr (.inr (Nat.le_refl _))))
  rw [Heap.stores_singleton] at hstores
  rw [Pointer.sub_into, hplace]
  refine ⟨h', hstores, hstored.within 0, .of_into b i rfl ?_ ?_ ?_⟩
  · rw [List.length_cons, show i + (before.length + 1) + cs.length =
      i + before.length + (cs.length + 1) by omega]
  · rw [List.length_cons]
    omega
  · exact (hstored.keeps hbefore (.inr (.inl (Nat.le_refl _)))).append hd

end

/-- The get area is moved over its contents. -/
theorem Process.Sound.area (hs : s.Sound contents pending) {heap : Heap UInt8} {area : Area} {c : Contents}
    (hwithin : Heap.Within s.heap heap (s.buf.rbuffer_ s.buf.rsrc_))
    (hshows : Shows heap (s.buf.rbuffer_ s.buf.rsrc_) area c) (hne : contents s.buf.rsrc_ ≠ .none) :
    Process.Sound { s with heap, buf := { s.buf with area } }
      (Function.update contents s.buf.rsrc_ c) pending :=
  ⟨hs.layout.refill hwithin hshows fun hpipe => absurd (hs.layout.unopened _ hpipe) hne,
    hs.descriptors.goes ⟨rfl, rfl, rfl, rfl, rfl⟩ rfl hs.descriptors.unread, hs.idle⟩

namespace basic_pstreambuf

open Process Queues

/-- The distance to the end of the area is the number of octets ahead. -/
theorem wp_available {Q : Nat → Process → Prop} (hs : s.Sound contents pending)
    (hQ : Q (contents s.buf.rsrc_).ahead.length s) : wp available Q s := by
  rw [available, wp_bind, wp_self]
  exact wp_distance hs.layout.shows.distances.2 hQ

/-- What comes next is where the get area says. -/
theorem wp_next_octet {Q : UInt8 → Process → Prop} (hs : s.Sound contents pending) {c : UInt8} {cs : Bytes}
    (hahead : (contents s.buf.rsrc_).ahead = c :: cs) (hQ : Q c s) : wp (Process.load s.buf.area.gptr) Q s := by
  have hshows := hs.layout.shows
  rw [show contents s.buf.rsrc_ = ⟨(contents s.buf.rsrc_).before, c :: cs⟩ by rw [← hahead]] at hshows
  exact wp_load hshows.load hQ

/-- `underflow` gives the next octet without taking it, and fills the area if it is used up. It
    keeps up to two octets before it for putback. -/
theorem underflow_spec (hs : s.Sound contents pending) (hreadable : s.Readable) :
    wp underflow (Reads pending (s.queues contents pending).Peeks) s := by
  rw [underflow, wp_bind, has_next, wp_bind]
  refine wp_available hs ?_
  cases hahead : (contents s.buf.rsrc_).ahead with
  | cons c cs =>
    rw [List.length_cons, if_pos (Nat.succ_ne_zero _), wp_pure, if_pos rfl, wp_bind, wp_self, wp_bind]
    refine wp_next_octet hs hahead ?_
    exact ⟨hreadable, contents, hs, .ahead hahead⟩
  | nil =>
    rw [List.length_nil, if_neg (fun h => h rfl)]
    refine wp_mono ?_ (fill_buffer_spec hs hreadable false)
    rintro (_ | _) t ⟨hreadable', contents', hs', hfills⟩
    · rw [if_neg Bool.false_ne_true]
      exact ⟨hreadable', contents', hs', .eof hahead hfills⟩
    · obtain ⟨c, cs, hnext⟩ : ∃ c cs, (t.queues contents' pending).active.ahead = c :: cs := by
        cases hactive : (t.queues contents' pending).active.ahead with
        | cons c cs => exact ⟨c, cs, rfl⟩
        | nil => exact absurd hactive (hfills.ahead_ne rfl)
      rw [if_pos rfl, wp_bind, wp_self, wp_bind]
      refine wp_next_octet hs' hnext ?_
      exact ⟨hreadable', contents', hs', .filled hahead hfills hnext⟩

/-- `sgetc` gives the next octet without taking it, filling the area if it has to. Before the end of
    the area it does not ask the system. -/
theorem sgetc_spec (hs : s.Sound contents pending) (hreadable : s.Readable) :
    wp sgetc (Reads pending (s.queues contents pending).Peeks) s := by
  rw [sgetc, wp_bind]
  refine wp_available hs ?_
  cases hahead : (contents s.buf.rsrc_).ahead with
  | cons c cs =>
    rw [List.length_cons, if_pos (Nat.succ_ne_zero _), wp_bind, wp_self, wp_bind]
    refine wp_next_octet hs hahead ?_
    exact ⟨hreadable, contents, hs, .ahead hahead⟩
  | nil =>
    rw [List.length_nil, if_neg (fun h => h rfl)]
    exact underflow_spec hs hreadable

/-- `sbumpc` takes the next octet, filling the area if it has to. -/
theorem sbumpc_spec (hs : s.Sound contents pending) (hreadable : s.Readable) :
    wp sbumpc (Reads pending (s.queues contents pending).Takes) s := by
  rw [sbumpc, wp_bind]
  refine wp_mono ?_ (sgetc_spec hs hreadable)
  rintro (_ | c) t ⟨hreadable', contents', hs', hpeeks⟩
  · exact ⟨hreadable', contents', hs', .eof hpeeks⟩
  · obtain ⟨cs, hnext⟩ := hpeeks.ahead_eq
    have hshows := hs'.layout.shows
    have hpass := pass_eq hnext
    rw [wp_bind, wp_self, wp_bind, gbump, wp_update, wp_pure]
    refine ⟨hreadable', Function.update contents' t.buf.rsrc_
      ⟨(contents' t.buf.rsrc_).before ++ [c], cs⟩, ?_, ?_⟩
    · refine hs'.area (.refl _ _) ?_ ?_
      · rw [show contents' t.buf.rsrc_ =
          ⟨(contents' t.buf.rsrc_).before, c :: cs⟩ by rw [← hnext]; rfl] at hshows
        exact hshows.pass
      · intro hnone
        rw [show (t.queues contents' pending).active = contents' t.buf.rsrc_ from rfl, hnone] at hnext
        cases hnext
    · have htakes := Takes.taken hpeeks
      rw [hpass] at htakes
      exact htakes

/-- `sgetn` takes up to `n` octets, one after the other until there is none. -/
theorem sgetn_spec (hs : s.Sound contents pending) (hreadable : s.Readable) (n : Nat) :
    wp (sgetn n) (Reads pending fun cs q => (s.queues contents pending).TakesAll cs q ∧ cs.length ≤ n) s := by
  induction n generalizing s contents with
  | zero => exact ⟨hreadable, contents, hs, .done, Nat.le_refl 0⟩
  | succ n ih =>
    rw [sgetn, wp_bind]
    refine wp_mono ?_ (sbumpc_spec hs hreadable)
    rintro (_ | c) t ⟨hreadable', contents', hs', htakes⟩
    · exact ⟨hreadable', contents', hs', .eof htakes, Nat.zero_le _⟩
    · rw [wp_bind]
      refine wp_mono ?_ (ih hs' hreadable')
      rintro cs u ⟨hreadable'', contents'', hs'', hrest, hlength⟩
      exact ⟨hreadable'', contents'', hs'', .more htakes hrest, Nat.succ_le_succ hlength⟩

/-- What is to be put back stands before what comes next. -/
theorem shows_back (hs : s.Sound contents pending) {before : Bytes} {c : UInt8}
    (hbefore : (contents s.buf.rsrc_).before = before ++ [c]) :
      Shows s.heap (s.buf.rbuffer_ s.buf.rsrc_) s.buf.area
      ⟨before ++ [c], (contents s.buf.rsrc_).ahead⟩ := by
  rw [← hbefore]
  exact hs.layout.shows

/-- A source of which something was read has an area. -/
theorem contents_ne (hs : (contents s.buf.rsrc_).before ≠ []) : contents s.buf.rsrc_ ≠ .none := by
  intro hnone
  rw [hnone] at hs
  exact hs rfl

/-- The get area goes back by an octet. -/
theorem sound_back (hs : s.Sound contents pending) {before : Bytes} {c : UInt8}
    (hbefore : (contents s.buf.rsrc_).before = before ++ [c]) :
    Process.Sound { s with buf := { s.buf with area := { s.buf.area with gptr := s.buf.area.gptr.sub 1 } } }
      (Function.update contents s.buf.rsrc_ ⟨before, c :: (contents s.buf.rsrc_).ahead⟩) pending := by
  refine hs.area (.refl _ _) (shows_back hs hbefore).back.2 (contents_ne ?_)
  rw [hbefore]
  exact List.append_ne_nil_of_right_ne_nil _ (List.cons_ne_nil c [])

/-- Where nothing can be put back, the area begins with the next octet. -/
theorem gptr_eq_eback (hs : s.Sound contents pending) (hbefore : (contents s.buf.rsrc_).before = []) :
    s.buf.area.gptr = s.buf.area.eback := by
  rcases hs.layout.shows with ⟨harea, -⟩ | ⟨b, i, -, harea, -, -⟩
  · rw [harea]
    rfl
  · rw [harea, hbefore]
    rfl

/-- Where something can be put back, it does not. -/
theorem gptr_ne_eback (hs : s.Sound contents pending) (hbefore : (contents s.buf.rsrc_).before ≠ []) :
    s.buf.area.gptr ≠ s.buf.area.eback := by
  rcases hs.layout.shows with ⟨-, hnone⟩ | ⟨b, i, -, harea, -, -⟩
  · exact absurd hnone (contents_ne hbefore)
  · have hpos := List.length_pos_iff.mpr hbefore
    rw [harea]
    intro heq
    have hindex := (Pointer.into.inj heq).2
    omega

/-- The distance from the beginning of the area is the number of octets that can be put back. -/
theorem wp_before {Q : Nat → Process → Prop} (hs : s.Sound contents pending)
    (hQ : Q (contents s.buf.rsrc_).before.length s) : wp (distance s.buf.area.eback s.buf.area.gptr) Q s :=
  wp_distance hs.layout.shows.distances.1 hQ

/-- `sungetc` goes back by one octet, if one is kept, and fails otherwise without touching anything.
    -/
theorem sungetc_spec (hs : s.Sound contents pending) (hreadable : s.Readable) :
    wp sungetc (Reads pending fun c q => (s.queues contents pending).Step .sungetc (.octet c) q) s := by
  rw [sungetc, wp_bind, wp_self, wp_bind]
  refine wp_before hs ?_
  rcases List.eq_nil_or_concat (contents s.buf.rsrc_).before with hbefore | ⟨before, c, hbefore⟩
  · rw [hbefore, List.length_nil, if_neg (fun h => h rfl), pbackfail, wp_bind, wp_self,
      if_neg (not_not.mpr (gptr_eq_eback hs hbefore))]
    exact ⟨hreadable, contents, hs, .not_sungetc hbefore⟩
  · rw [List.concat_eq_append] at hbefore
    rw [if_pos (by rw [hbefore, List.length_append, List.length_singleton]; exact Nat.succ_ne_zero _),
      wp_bind, gbump,
      wp_update, wp_bind]
    refine wp_load (shows_back hs hbefore).back.1 ?_
    exact ⟨hreadable, _, sound_back hs hbefore, .sungetc hbefore⟩

/-- `sputbackc` goes back by one octet and writes its own over it, if it is another one. -/
theorem sputbackc_spec (hs : s.Sound contents pending) (hreadable : s.Readable) (c : UInt8) :
    wp (sputbackc c) (Reads pending fun r q =>
      (s.queues contents pending).Step (.sputbackc c) (.octet r) q) s := by
  rw [sputbackc, wp_bind, wp_self, wp_bind]
  refine wp_before hs ?_
  rcases List.eq_nil_or_concat (contents s.buf.rsrc_).before with hbefore | ⟨before, d, hbefore⟩
  · rw [hbefore, List.length_nil, if_neg (fun h => h rfl), pbackfail, wp_bind, wp_self,
      if_neg (not_not.mpr (gptr_eq_eback hs hbefore))]
    exact ⟨hreadable, contents, hs, .not_sputbackc hbefore⟩
  · rw [List.concat_eq_append] at hbefore
    have hne : (contents s.buf.rsrc_).before ≠ [] := by
      rw [hbefore]
      exact List.append_ne_nil_of_right_ne_nil _ (List.cons_ne_nil d [])
    rw [if_pos (by rw [hbefore, List.length_append, List.length_singleton]; exact Nat.succ_ne_zero _), wp_bind]
    refine wp_load (shows_back hs hbefore).back.1 ?_
    split
    · rename_i hsame
      subst hsame
      rw [wp_bind, gbump, wp_update, wp_pure]
      exact ⟨hreadable, _, sound_back hs hbefore, .sputbackc hbefore⟩
    · rw [pbackfail, wp_bind, wp_self, if_pos (gptr_ne_eback hs hne), wp_bind, gbump, wp_update, wp_bind]
      obtain ⟨heap, hstore, hwithin, hshows⟩ := (shows_back hs hbefore).amend (hs.layout.allocated _) c
      refine wp_onHeap hstore ?_
      exact ⟨hreadable, _, hs.area hwithin hshows (contents_ne hne), .sputbackc hbefore⟩

/-- `in_avail` tells how many octets there are without waiting, which it may fetch for that. -/
theorem in_avail_spec (hs : s.Sound contents pending) (hreadable : s.Readable) :
    wp in_avail (Reads pending fun n q => (s.queues contents pending).Step .in_avail (.count n) q) s := by
  rw [in_avail, wp_bind]
  refine wp_available hs ?_
  by_cases hahead : (contents s.buf.rsrc_).ahead = []
  · rw [hahead, List.length_nil, if_neg (fun h => h rfl), showmanyc, wp_bind]
    refine wp_mono ?_ (fill_buffer_spec hs hreadable true)
    rintro (_ | _) t ⟨hreadable', contents', hs', hfills⟩
    · rw [if_neg Bool.false_ne_true]
      exact ⟨hreadable', contents', hs', .not_filled hahead hfills⟩
    · rw [if_pos rfl, wp_bind]
      refine wp_available hs' ?_
      exact ⟨hreadable', contents', hs', @Step.filled (s.queues contents pending) _ hahead hfills⟩
  · rw [if_pos (fun h => hahead (List.length_eq_zero_iff.mp h))]
    exact ⟨hreadable, contents, hs, .available hahead⟩

/-- `read_err` changes to the other source if it is connected, each with its own area. -/
theorem read_err_spec (hs : s.Sound contents pending) (hreadable : s.Readable) (readerr : Bool) :
    wp (read_err readerr) (Leaves fun b q =>
      (s.queues contents pending).Step (.read_err readerr) (.flag b) q) s := by
  rw [read_err, wp_bind, wp_self]
  set src := if readerr = true then buf_read_src.rsrc_err else .rsrc_out with hsrc
  cases hpipe : s.buf.rpipe_ src with
  | none => exact ⟨hreadable, contents, pending, hs, .not_switched hpipe⟩
  | some fd =>
    have hopen : (s.queues contents pending).rpipe src ≠ none := by
      change s.buf.rpipe_ src ≠ none
      rw [hpipe]
      exact Option.some_ne_none fd
    rw [wp_bind, switch_read_buffer, wp_bind, wp_self]
    refine wp_when ?_ ?_
    · intro hne
      have hother : src = s.buf.rsrc_.other := (s.buf.rsrc_.eq_or_other src).resolve_left fun h => by
        rw [h] at hne
        simp at hne
      rw [wp_update, wp_pure]
      refine ⟨hreadable, contents, pending,
        ⟨⟨hs.layout.pending, ?_, ?_, hs.layout.unopened, hs.layout.allocated,
        hs.layout.apart, hs.layout.apart_rbuffers, hs.layout.owned⟩, ?_, hs.idle⟩, .switched hsrc hopen⟩
      · have hsaved := hs.layout.saved (by rw [← hother]; exact hopen)
        rw [← hother] at hsaved
        exact hsaved
      · intro _
        have hback : src.other = s.buf.rsrc_ := by rw [hother, buf_read_src.other_other]
        change Shows s.heap (s.buf.rbuffer_ src.other) s.buf.area (contents src.other)
        rw [hback]
        exact hs.layout.shows
      · exact hs.descriptors.goes ⟨rfl, rfl, rfl, rfl, rfl⟩ rfl hs.descriptors.unread
    · intro hsame
      have hactive : src = s.buf.rsrc_ := (bne_eq_false_iff_eq.mp hsame).symm
      have hstep := Step.switched hsrc hopen
      rw [hactive] at hstep
      exact ⟨hreadable, contents, pending, hs, hstep⟩

end basic_pstreambuf

end

end taraxacum.pstream
