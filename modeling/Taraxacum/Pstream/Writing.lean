import Taraxacum.Pstream.Reading

open json memory program Program Function

namespace taraxacum.pstream

section
variable {h h' : Heap UInt8} {buf : basic_pstreambuf} {contents : buf_read_src → Contents} {pending : Bytes}

/-- What is written into the put area is in no area of a source. -/
theorem Layout.apart_ne (hl : Layout h buf contents pending) (src : buf_read_src) {b i : Nat}
    (hb : buf.wbuffer_ = .into b i) (j : Nat) : buf.rbuffer_ src ≠ .into b j := by
  intro hj
  rcases hl.allocated src with hnull | ⟨c, hc, -⟩
  · rw [hnull] at hj
    cases hj
  · have hcb : c = b := by
      rw [hc] at hj
      exact (Pointer.into.inj hj).1
    rw [hcb] at hc
    exact hl.apart_wbuffer hc i hb

/-- Only the put area and its buffer are changed. -/
theorem Layout.repend (hl : Layout h buf contents pending) {pptr : Pointer} {e : Int} {pending' : Bytes}
    (hwithin : Heap.Within h h' buf.wbuffer_) (hpending : Pending h' { buf with pptr, error_ := e } pending') :
    Layout h' { buf with pptr, error_ := e } contents pending' where
  pending := hpending
  shows := hl.shows.frame (hwithin.same _ fun _ _ j hb => hl.apart_ne _ hb j)
  saved hpipe := (hl.saved hpipe).frame (hwithin.same _ fun _ _ j hb => hl.apart_ne _ hb j)
  unopened := hl.unopened
  allocated src := (hl.allocated src).of_live hwithin.live
  apart := hl.apart
  apart_rbuffers := hl.apart_rbuffers
  owned b n hlive := hl.owned b n ((hwithin.live b n).mp hlive)

/-- Where there is no room the put area is at its end. -/
theorem Pending.room (hp : Pending h buf pending) :
    ∃ room, buf.pptr.distance buf.epptr = some room ∧ (room = 0 ↔ buf.pptr = buf.epptr) ∧ (room ≠ 0 → ∃ b,
      buf.wbuffer_ = .into b 0 ∧ buf.pbase = .into b 0 ∧ buf.pptr = .into b pending.length ∧
        buf.epptr = .into b bufsz ∧
        pending.length + room = bufsz ∧ h.Live b bufsz ∧ h.Holds (.into b 0) pending) := by
  rcases hp with ⟨-, -, hptr, hend, -⟩ | ⟨b, hb, hbase, hptr, hend, hroom, hlive, hholds⟩
  · rw [hptr, hend]
    exact ⟨0, rfl, by simp, fun hne => absurd rfl hne⟩
  · have hrest := Pointer.distance_into b pending.length (bufsz - pending.length)
    rw [Nat.add_sub_cancel' hroom] at hrest
    refine ⟨bufsz - pending.length, by rw [hptr, hend, hrest], ?_, fun _ =>
      ⟨b, hb, hbase, hptr, hend, Nat.add_sub_cancel' hroom, hlive, hholds⟩⟩
    rw [hptr, hend, Pointer.into.injEq]
    omega

end

section
variable {s : Process} {contents : buf_read_src → Contents} {pending : Bytes}

/-- More octets are put behind those that are pending. -/
theorem Process.Sound.put (hs : s.Sound contents pending) {room : Nat} {as : Bytes}
    (hroom : s.buf.pptr.distance s.buf.epptr = some room) (has : as ≠ []) (hle : as.length ≤ room) :
    ∃ heap, s.heap.stores s.buf.pptr as = some heap ∧
      Process.Sound { s with heap, buf := { s.buf with pptr := s.buf.pptr.add as.length } } contents
      (pending ++ as) := by
  obtain ⟨room', hroom', -, hsome⟩ := hs.layout.pending.room
  obtain rfl : room = room' := Option.some.inj (hroom.symm.trans hroom')
  have hpos := List.length_pos_iff.mpr has
  obtain ⟨b, hb, hbase, hptr, hend, hsum, hlive, hholds⟩ := hsome (by omega)
  obtain ⟨heap, hstores, hstored⟩ := Heap.stores_into hlive (show pending.length + as.length ≤ bufsz by omega)
  refine ⟨heap, by rw [hptr, hstores], ?_, ?_, hs.idle⟩
  · refine hs.layout.repend (by rw [hb]; exact hstored.within 0) (.inr ⟨b, hb, hbase, ?_, hend, ?_, ?_, ?_⟩)
    · rw [hptr, Pointer.add_into, List.length_append]
    · rw [List.length_append]
      omega
    · exact (hstored.live b bufsz).mpr hlive
    · refine (hstored.keeps hholds (.inr (.inl (by omega)))).append ?_
      rw [Nat.zero_add]
      exact hstored.holds
  · exact hs.descriptors.goes ⟨rfl, rfl, rfl, rfl, rfl⟩ rfl hs.descriptors.unread

/-- What `write` has taken changes no descriptor. -/
theorem Descriptors.wrote {k : Kernel} {buf buf' : basic_pstreambuf} (hd : Descriptors k buf [])
    {fd : Nat} {bs : Bytes}
    {writes : List (Except Int Nat)} (hfd : fd ∈ k.fds) (hheld : buf'.held = buf.held) :
    Descriptors { k with writes, written := Function.update k.written fd bs } buf' [] where
  perm := by rw [hheld]; exact hd.perm
  nodup := hd.nodup
  below := hd.below
  unwritten fd' hfresh := by
    have hbelow := hd.below fd hfd
    change Function.update k.written fd bs fd' = []
    rw [update_of_ne (by have : k.fresh ≤ fd' := hfresh; omega)]
    exact hd.unwritten fd' hfresh
  unread := hd.unread
  closes := hd.closes

/-- Octets from the front have been written, and the others stand at the front now. -/
theorem Process.Sound.wrote (hs : s.Sound contents pending) {b fd : Nat} {bs rest : Bytes} {heap : Heap UInt8}
    {writes : List (Except Int Nat)} (hfd : s.buf.wpipe_ = some fd) (hpending : pending = bs ++ rest)
    (hbs : bs ≠ [])
    (hb : s.buf.wbuffer_ = .into b 0) (hwithin : Heap.Within s.heap heap s.buf.wbuffer_)
    (hholds : heap.Holds (.into b 0) rest) {t : Process}
    (ht : t = ⟨heap,
      { s.kernel with writes, written := Function.update s.kernel.written fd (s.kernel.written fd ++ bs) },
      { s.buf with pptr := .into b rest.length }⟩) :
    t.Sound contents rest ∧ (s.queues contents pending).Empties true (t.queues contents rest) ∧
      t.buf.pptr ≠ t.buf.epptr := by
  rcases hs.layout.pending with ⟨hnull, -⟩ | ⟨b', hb', hbase, hptr, hend, hroom, hlive, -⟩
  · rw [hb] at hnull
    cases hnull
  obtain ⟨rfl, -⟩ := Pointer.into.inj (hb.symm.trans hb')
  have hpos := List.length_pos_iff.mpr hbs
  have hd := @Descriptors.wrote _ _ s.buf hs.descriptors fd (s.kernel.written fd ++ bs) writes
    (hs.descriptors.mem_wpipe hfd) rfl
  rw [hpending, List.length_append] at hroom
  subst ht
  refine ⟨⟨?_, hd.goes ⟨rfl, rfl, rfl, rfl, rfl⟩ rfl hd.unread, hs.idle⟩, .written hfd hpending hbs, ?_⟩
  · refine hs.layout.repend hwithin (.inr
      ⟨b, hb, hbase, rfl, hend, ?_, (hwithin.live b bufsz).mpr hlive, hholds⟩)
    omega
  · change Pointer.into b rest.length ≠ s.buf.epptr
    rw [hend]
    intro heq
    have hindex := (Pointer.into.inj heq).2
    omega

namespace basic_pstreambuf

open Process Queues

/-- `write` sends the put area from its beginning, asking again after each `EINTR`. It needs the
    area to lie in a live array. -/
theorem wp_write {Q : Int → Process → Prop} {b : Nat} (hs : s.Sound contents pending)
    (hb : s.buf.wbuffer_ = .into b 0) (hholds : s.heap.Holds (.into b 0) pending) (hnone : Q 0 s)
    (herror : ∀ errno writes, Q (-1)
      { s with kernel := { s.kernel with writes }, buf := { s.buf with error_ := errno } })
    (hok : ∀ fd k writes, s.buf.wpipe_ = some fd → Q (pending.take k).length { s with kernel := { s.kernel with
      writes, written := Function.update s.kernel.written fd (s.kernel.written fd ++ pending.take k) } }) :
    wp (write s.buf.wbuffer_ pending.length) Q s := by
  rw [write, wp_bind, wp_self]
  cases hpipe : s.buf.wpipe_ with
  | none => exact hnone
  | some fd =>
    rw [wp_bind, hb]
    refine Kernel.wp_write (hs.descriptors.mem_wpipe hpipe) hholds ?_ ?_
    · intro errno writes
      rw [wp_bind]
      exact herror errno writes
    · intro k writes
      exact hok fd k writes hpipe

/-- What is not written moves to the front, so that there is room. -/
theorem empty_buffer_spec (hs : s.Sound contents pending) (hreadable : s.Readable) :
    wp empty_buffer (fun ok t => Leaves (s.queues contents pending).Empties ok t ∧
      (ok = true → t.buf.pptr ≠ t.buf.epptr)) s := by
  rw [empty_buffer, wp_bind, wp_self, wp_bind]
  refine wp_distance hs.layout.pending.distances.1 ?_
  have hnothing : Leaves (s.queues contents pending).Empties false s :=
    ⟨hreadable, contents, pending, hs, .nothing⟩
  split
  · rename_i hpos
    rcases hs.layout.pending with ⟨-, -, -, -, rfl⟩ | ⟨b, hb, hbase, hptr, hend, hroom, hlive, hholds⟩
    · exact absurd hpos (Nat.lt_irrefl 0)
    rw [wp_bind]
    refine wp_write hs hb hholds ?_ ?_ ?_
    · rw [if_neg (Int.lt_irrefl 0)]
      exact ⟨hnothing, fun h => by cases h⟩
    · intro errno writes
      rw [if_neg (by decide)]
      refine ⟨⟨hreadable, contents, pending, ?_, .nothing⟩, fun h => by cases h⟩
      exact @Process.Sound.error s contents pending hs { s.kernel with writes } ⟨rfl, rfl, rfl, rfl, rfl⟩ errno
    intro fd k writes hfd
    split
    · rename_i hsome
      have hsplit := List.take_append_drop k pending
      have hrest : pending.length - (pending.take k).length = (pending.drop k).length := by
        rw [List.length_take, List.length_drop]
        omega
      have hne : pending.take k ≠ [] := fun hnil => by
        rw [hnil] at hsome
        exact absurd hsome (Int.lt_irrefl 0)
      have hless := List.length_take_le' k pending
      have hplace : s.buf.pptr.sub (pending.take k).length = .into b (pending.drop k).length := by
        rw [hptr, Pointer.sub_into, hrest]
      have hlast := hholds
      rw [← hsplit] at hlast
      have hlast := hlast.right
      rw [Nat.zero_add] at hlast
      rw [wp_bind]
      apply wp_when
      · intro _
        rw [Int.toNat_natCast, hrest, hbase, Pointer.add_into, Nat.zero_add]
        have hfits : 0 + (pending.drop k).length ≤ bufsz := by
          rw [List.length_drop]
          omega
        obtain ⟨heap, hmove, hstored⟩ := Heap.move_into hlast hlive hfits
        refine wp_onHeap hmove ?_
        rw [hplace, wp_bind, pbump, wp_update, wp_pure]
        have hwithin : Heap.Within s.heap heap s.buf.wbuffer_ := by
          rw [hb]
          exact hstored.within 0
        obtain ⟨hs', hempties, hmade⟩ := hs.wrote hfd hsplit.symm hne hb hwithin hstored.holds rfl
        exact ⟨⟨hreadable, contents, pending.drop k, hs', hempties⟩, fun _ => hmade⟩
      · intro hzero
        have hnil : pending.drop k = [] := by
          rw [Int.toNat_natCast, hrest] at hzero
          exact List.length_eq_zero_iff.mp (bne_eq_false_iff_eq.mp hzero)
        have hnone : s.heap.Holds (.into b 0) (pending.drop k) := by
          rw [hnil]
          exact .nil
        rw [Int.toNat_natCast, hplace, wp_bind, pbump, wp_update, wp_pure]
        obtain ⟨hs', hempties, hmade⟩ := hs.wrote hfd hsplit.symm hne hb (.refl _ _) hnone rfl
        exact ⟨⟨hreadable, contents, pending.drop k, hs', hempties⟩, fun _ => hmade⟩
    · rename_i hnone
      have hnil : pending.take k = [] := List.length_eq_zero_iff.mp (by omega)
      have hsame : Function.update s.kernel.written fd (s.kernel.written fd ++ pending.take k) =
        s.kernel.written := by
        rw [hnil, List.append_nil, update_eq_self]
      rw [hsame]
      refine ⟨⟨hreadable, contents, pending, ?_, .nothing⟩, fun h => by cases h⟩
      exact @Process.Sound.error s contents pending hs { s.kernel with writes }
        ⟨rfl, rfl, rfl, rfl, rfl⟩ s.buf.error_
  · exact ⟨hnothing, fun h => by cases h⟩

/-- An area that could not be emptied is as it was. -/
theorem unchanged_of_empties {q q' : Queues} (hempties : q.Empties false q') : q' = q := by
  cases hempties
  rfl

/-- With room the octet is put there. -/
theorem put_room (hs : s.Sound contents pending) (hreadable : s.Readable) {room : Nat}
    (hroom : s.buf.pptr.distance s.buf.epptr = some room) (hpos : 0 < room)
    (overflow : UInt8 → Program Process int_type) (c : UInt8) :
    wp (put overflow c) (Leaves fun r q => r = some c ∧
      q = { s.queues contents pending with pending := pending ++ [c] }) s := by
  obtain ⟨heap, hstores, hs'⟩ := hs.put hroom (List.cons_ne_nil c []) (show [c].length ≤ room from hpos)
  rw [Heap.stores_singleton] at hstores
  rw [put, wp_bind, wp_self, wp_bind]
  refine wp_distance hroom ?_
  rw [if_pos hpos, wp_bind]
  refine wp_onHeap hstores ?_
  rw [wp_bind, pbump, wp_update, wp_pure]
  exact ⟨hreadable, contents, pending ++ [c], hs', rfl, rfl⟩

/-- `overflow` makes room by emptying the area, and then takes its octet or refuses it. -/
theorem overflow_spec (hs : s.Sound contents pending) (hreadable : s.Readable) (depth : Nat) (c : UInt8) :
    wp (overflow (depth + 1) (some c)) (Leaves ((s.queues contents pending).Puts c)) s := by
  rw [overflow, wp_bind]
  refine wp_mono ?_ (empty_buffer_spec hs hreadable)
  rintro (_ | _) t ⟨⟨hreadable', contents', pending', hs', hempties⟩, hmade⟩
  · rw [if_neg Bool.false_ne_true, wp_pure]
    refine ⟨hreadable', contents', pending', hs', ?_⟩
    rw [unchanged_of_empties hempties]
    exact .full
  · obtain ⟨room, hroom, hzero, -⟩ := hs'.layout.pending.room
    have hpos : 0 < room := Nat.pos_of_ne_zero fun h => hmade rfl (hzero.mp h)
    rw [if_pos rfl]
    refine wp_mono ?_ (put_room hs' hreadable' hroom hpos _ c)
    rintro r u ⟨hreadable'', contents'', pending'', hs'', rfl, hq⟩
    refine ⟨hreadable'', contents'', pending'', hs'', ?_⟩
    rw [hq]
    exact .emptied hempties

/-- `sputc` takes its octet where there is room, and makes room with `overflow` otherwise. It is
    refused if the area cannot be emptied. -/
theorem sputc_spec (hs : s.Sound contents pending) (hreadable : s.Readable) (c : UInt8) :
    wp (sputc c) (Leaves ((s.queues contents pending).Puts c)) s := by
  obtain ⟨room, hroom, -⟩ := hs.layout.pending.distances.2
  by_cases hpos : 0 < room
  · refine wp_mono ?_ (put_room hs hreadable hroom hpos _ c)
    rintro r u ⟨hreadable', contents', pending', hs', rfl, hq⟩
    refine ⟨hreadable', contents', pending', hs', ?_⟩
    rw [hq]
    exact .room
  · rw [sputc, put, wp_bind, wp_self, wp_bind]
    refine wp_distance hroom ?_
    rw [if_neg hpos]
    exact overflow_spec hs hreadable 1 c

/-- How far `xsputn` is: what of the octets is taken from here on is taken after `done` of them. -/
def Puttings (q₀ : Queues) (cs : Bytes) (done : Nat) (s : Process) : Prop :=
  done ≤ cs.length ∧
    Leaves (fun done q => ∀ n q', q.PutsAll (cs.drop done) n q' → q₀.PutsAll cs (done + n) q') done s

/-- Each turn takes octets, of which each counts twice, or makes room where there was none. -/
def puttings_left (cs : Bytes) (done : Nat) (s : Process) : Nat :=
  2 * (cs.length - done) + if s.buf.pptr = s.buf.epptr then 1 else 0

/-- There is fuel for all turns of `xsputn`. -/
theorem puttings_left_le (cs : Bytes) (done : Nat) (s : Process) :
    puttings_left cs done s ≤ 2 * (cs.length - done) + 1 := by
  unfold puttings_left
  split <;> omega

/-- One turn of `xsputn` takes octets until the area is full, or empties the area, or is the last.
    Either way there is less to do. -/
theorem xsputn_turn_spec {q₀ : Queues} {cs : Bytes} {done : Nat} (hputtings : Puttings q₀ cs done s) :
    wp (xsputn_turn cs done) (fun r t => r.elim
      (fun done' => Puttings q₀ cs done' t ∧ puttings_left cs done' t < puttings_left cs done s)
      fun n => Leaves (q₀.PutsAll cs) n t) s := by
  obtain ⟨hle, hreadable, contents, pending, hs, hrest⟩ := hputtings
  have hstop : ∀ t, t.Readable → ∀ contents' pending', t.Sound contents' pending' →
      t.queues contents' pending' = s.queues contents pending → Leaves (q₀.PutsAll cs) done t :=
    fun t hreadable' contents' pending' hs' hq => ⟨hreadable', contents', pending', hs', by
      rw [hq]
      exact hrest 0 _ .stopped⟩
  unfold xsputn_turn
  refine wp_ite (fun hless => ?_) fun _ => hstop s hreadable contents pending hs rfl
  obtain ⟨room, hroom, hzero, -⟩ := hs.layout.pending.room
  rw [wp_bind, wp_self, wp_bind]
  refine wp_distance hroom ?_
  refine wp_ite (fun hpos => ?_) fun hfull => ?_
  · set nbuf := min room (cs.length - done) with hnbuf
    have hlength : ((cs.drop done).take nbuf).length = nbuf := by
      rw [List.length_take, List.length_drop]
      omega
    have hsome : (cs.drop done).take nbuf ≠ [] := List.ne_nil_of_length_pos (by omega)
    obtain ⟨heap, hstores, hs'⟩ := hs.put hroom hsome (by omega)
    rw [wp_bind]
    refine wp_onHeap hstores ?_
    rw [wp_bind, pbump, wp_update, wp_pure]
    rw [hlength] at hs'
    refine ⟨⟨by omega, hreadable, contents, _, hs', fun n q' hputs => ?_⟩, ?_⟩
    · have hsplit := List.take_append_drop nbuf (cs.drop done)
      have hall := Queues.PutsAll.room (q := s.queues contents pending) hputs
      rw [List.drop_drop.symm, hsplit, hlength] at hall
      have hwhole := hrest _ _ hall
      rwa [← Nat.add_assoc] at hwhole
    · refine Nat.lt_of_le_of_lt (puttings_left_le cs _ _) ?_
      unfold puttings_left
      omega
  · have hatEnd : s.buf.pptr = s.buf.epptr := hzero.mp (not_not.mp hfull)
    rw [wp_bind]
    refine wp_mono ?_ (empty_buffer_spec hs hreadable)
    rintro (_ | _) t ⟨⟨hreadable', contents', pending', hs', hempties⟩, hmade⟩
    · rw [if_neg Bool.false_ne_true, wp_pure]
      exact hstop t hreadable' contents' pending' hs' (unchanged_of_empties hempties)
    · rw [if_pos rfl, wp_pure]
      refine ⟨⟨hle, hreadable', contents', pending', hs', fun n q' hputs =>
        hrest n q' (.emptied hempties hputs)⟩, ?_⟩
      unfold puttings_left
      rw [if_neg (hmade rfl), if_pos hatEnd]
      omega

/-- `xsputn` takes the octets in order, emptying the area whenever it is full, and says how many it
    has taken. -/
theorem xsputn_spec (hs : s.Sound contents pending) (hreadable : s.Readable) (cs : Bytes) :
    wp (xsputn cs) (Leaves ((s.queues contents pending).PutsAll cs)) s := by
  refine wp_iterate (I := Puttings (s.queues contents pending) cs) (μ := puttings_left cs)
    (fun done t hputtings => xsputn_turn_spec hputtings) ?_ ?_
  · refine ⟨Nat.zero_le _, hreadable, contents, pending, hs, fun n q' hputs => ?_⟩
    rwa [Nat.zero_add]
  · have hle := puttings_left_le cs 0 s
    omega

end basic_pstreambuf

end

end taraxacum.pstream
