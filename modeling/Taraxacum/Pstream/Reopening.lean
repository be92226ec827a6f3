import Taraxacum.Pstream.Runs

open json memory program Program Function

namespace taraxacum.pstream

section
variable {s t u : Process} {mode : pmode}

namespace basic_pstreambuf

open Process

/-- Where nothing can be loaded, the octets of an area cannot be moved. -/
theorem not_wp_move {Q : Unit → Process → Prop} (hdead : ∀ p, s.heap.load p = none) {dst src : Pointer}
    {n : Nat}
    (hn : n ≠ 0) : ¬wp (move dst src n) Q s := by
  obtain ⟨m, rfl⟩ := Nat.exists_eq_succ_of_ne_zero hn
  rw [move, onHeap, wp_bind, wp_state, wp_bind, wp_ofOption_iff]
  rintro ⟨heap, hmove, -⟩
  rw [Heap.move, Heap.loads, hdead src] at hmove
  cases hmove

/-- Where no pointer leads to an octet every load goes wrong. -/
theorem not_wp_load {Q : UInt8 → Process → Prop} (hdead : ∀ p, s.heap.load p = none) (p : Pointer) :
    ¬wp (Process.load p) Q s := by
  rw [Process.load, wp_bind, wp_state, wp_ofOption_iff]
  rintro ⟨c, hload, -⟩
  rw [hdead p] at hload
  cases hload

/-- An area that is empty can be filled wherever it lies. -/
theorem wp_fill_empty (hd : Descriptors s.kernel s.buf []) (ha : Arrays s.heap s.buf.wbuffer_ s.buf.rbuffer_)
    (hreadable : s.Readable) (hbefore : s.buf.area.eback.distance s.buf.area.gptr = some 0) :
    wp (fill_buffer false) (fun b t => b = true → ∃ c, t.heap.load t.buf.area.gptr = some c) s := by
  rw [fill_buffer, wp_bind, wp_self, wp_bind]
  refine wp_distance hbefore ?_
  dsimp only
  rw [wp_bind]
  refine wp_when (fun h => absurd h (by decide)) fun _ => ?_
  rw [wp_bind]
  refine wp_mono ?_ (fetch_fetched hd (ha.rbuffer s.buf.rsrc_) hreadable false)
  rintro rc t (⟨hfd, hlength, hbs, hstored, hk⟩ | ⟨hrc, hwithin, hk⟩)
  · rename_i fd bs heap kernel e
    have hbuffer := hreadable s.buf.rsrc_ (by rw [hfd]; exact Option.some_ne_none fd)
    obtain ⟨b, hb, -⟩ := (ha.rbuffer s.buf.rsrc_).resolve_left hbuffer
    obtain ⟨c, cs, rfl⟩ := List.exists_cons_of_ne_nil (hbs rfl)
    rw [if_pos (.inl (by rw [List.length_cons]; omega)), wp_bind, setg, wp_update, wp_pure]
    intro _
    refine ⟨c, ?_⟩
    change heap.load ((s.buf.rbuffer_ s.buf.rsrc_).add pbsz) = some c
    rw [hb, Pointer.add_into, Nat.zero_add]
    exact (hstored b hb).holds.head
  · rw [if_neg hrc, wp_bind, setg, wp_update, wp_pure]
    exact fun h => by cases h

/-- With an area over arrays that have been freed `sgetc` goes wrong unless it is empty. -/
theorem sgetc_dead (hd : Descriptors s.kernel s.buf []) (ha : Arrays s.heap s.buf.wbuffer_ s.buf.rbuffer_)
    (hreadable : s.Readable) (hdead : ∀ p, s.heap.load p = none) :
    sgetc s ≠ .fault ↔ s.buf.area.eback.distance s.buf.area.gptr = some 0 ∧
      s.buf.area.gptr.distance s.buf.area.egptr = some 0 := by
  rw [ne_fault_iff, sgetc, wp_bind, available, wp_bind, wp_self, distance, wp_ofOption_iff]
  constructor
  · rintro ⟨n, hn, hget⟩
    cases n with
    | succ n =>
      rw [if_pos (Nat.succ_ne_zero n), wp_bind, wp_self, wp_bind] at hget
      exact absurd hget (not_wp_load hdead _)
    | zero =>
      rw [if_neg (fun h => h rfl), underflow, wp_bind, has_next, wp_bind, available, wp_bind, wp_self, distance,
        wp_ofOption_iff] at hget
      obtain ⟨n, hn', hnext⟩ := hget
      obtain rfl := Option.some.inj (hn.symm.trans hn')
      rw [if_neg (fun h => h rfl), fill_buffer, wp_bind, wp_self, wp_bind, distance, wp_ofOption_iff] at hnext
      obtain ⟨p, hp, hfill⟩ := hnext
      refine ⟨?_, hn⟩
      cases p with
      | zero => exact hp
      | succ p =>
        dsimp only at hfill
        rw [wp_bind, when, if_pos (by simp [pbsz])] at hfill
        exact absurd hfill (not_wp_move hdead (by simp [pbsz]))
  · rintro ⟨hbefore, hahead⟩
    refine ⟨0, hahead, ?_⟩
    rw [if_neg (fun h => h rfl), underflow, wp_bind, has_next, wp_bind, available, wp_bind, wp_self]
    refine wp_distance hahead ?_
    rw [if_neg (fun h => h rfl)]
    refine wp_mono ?_ (wp_fill_empty hd ha hreadable hbefore)
    rintro (_ | _) t hload
    · rw [if_neg Bool.false_ne_true]
      trivial
    · obtain ⟨c, hload⟩ := hload rfl
      rw [if_pos rfl, wp_bind, wp_self, wp_bind]
      exact wp_load hload trivial

end basic_pstreambuf

open basic_pstreambuf Process

/-- An open of a closed buffer that succeeds leaves new arrays, and `rbufstate_` as it was. -/
theorem opened_of_done (hc : s.Closed) (hopen : perform (.openCommand mode) s = .done (.flag true) t) :
    Opened s mode t := by
  have hspec : wp (perform (.openCommand mode)) (fun r t => r = .flag true → Opened s mode t) s := by
    rw [perform, wp_map]
    exact wp_openCommand hc (fun h => by cases h) (fun _ _ _ _ h => by cases h) fun u hu _ => hu
  exact of_wp_of_done hspec hopen rfl

/-- The area that was put by is taken for that of the other source. -/
theorem switched_of_done (hsource : t.buf.rsrc_ = .rsrc_out)
    (hswitch : perform (.read_err true) t = .done (.flag true) u) : u = { t with buf := { t.buf with
      area := t.buf.rbufstate_, rbufstate_ := t.buf.area, rsrc_ := .rsrc_err } } := by
  have hspec : wp (perform (.read_err true)) (fun r u => r = .flag true → u = { t with buf := { t.buf with
      area := t.buf.rbufstate_, rbufstate_ := t.buf.area, rsrc_ := .rsrc_err } }) t := by
    rw [perform, wp_map, read_err, wp_bind, wp_self]
    dsimp only
    split
    · rw [wp_bind, switch_read_buffer, wp_bind, wp_self]
      refine wp_when (fun _ _ => rfl) fun hsame => ?_
      rw [hsource] at hsame
      cases hsame
    · exact fun h => by cases h
  exact of_wp_of_done hspec hswitch rfl

/-- A buffer that is opened again, for both sources, still has the area that `read_err` put by before
    it was closed. Unless that is empty, `sgetc` after the next `read_err` goes to an array that has
    been freed. -/
theorem reopened_over_freed {k : Kernel} {calls : List (Op × Ret)}
    (hreach : program.Reaches perform Ready (started k) calls s) (hempty : s.buf.Empty)
    (hout : mode.pstdout = true) (hopen : perform (.openCommand mode) s = .done (.flag true) t)
    (hswitch : perform (.read_err true) t = .done (.flag true) u) :
    perform .sgetc u = .fault ↔ ¬(s.buf.rbufstate_.eback.distance s.buf.rbufstate_.gptr = some 0 ∧
      s.buf.rbufstate_.gptr.distance s.buf.rbufstate_.egptr = some 0) := by
  obtain ⟨contents, pending, hs⟩ := (inOrder_of_reaches hreach).1.sound
  have hc := hs.closed hempty
  have ht := opened_of_done hc hopen
  have hdead p := (ht.load p).trans (Heap.load_of_dead hc.live p)
  have hsource : t.buf.rsrc_ = .rsrc_out := by
    rw [ht.source, hout]
    rfl
  have hu := switched_of_done hsource hswitch
  have hsgetc : sgetc u ≠ .fault ↔ u.buf.area.eback.distance u.buf.area.gptr = some 0 ∧
      u.buf.area.gptr.distance u.buf.area.egptr = some 0 := by
    subst hu
    exact sgetc_dead (ht.descriptors.of_held (.refl _)) ht.arrays ht.readable hdead
  rw [show u.buf.area = s.buf.rbufstate_ by rw [hu, ← ht.saved]] at hsgetc
  rw [perform, map_eq_fault_iff, ← hsgetc, not_not]

/-- Two octets have come and were looked at, but not taken, before the change to the other source. -/
theorem reopened_over_freed_two : ∃ k s t u, program.Reaches perform Ready (started k)
      [(.openCommand ⟨false, true, true⟩, .flag true), (.sgetc, .octet (some 111)),
        (.read_err true, .flag true),
        (.close, .flag true)] s ∧
    perform (.openCommand ⟨false, true, true⟩) s = .done (.flag true) t ∧
    perform (.read_err true) t = .done (.flag true) u ∧ perform .sgetc u = .fault := by
  let k : Kernel :=
    { obliging with pipes := List.replicate 4 (.ok ()), forks := [.ok 41, .ok 42], waits := [.ok (some 0)] }
  have hruns : (runs perform [.openCommand ⟨false, true, true⟩, .sgetc, .read_err true, .close] (started k)).map
      (fun x => (x.1, x.2.buf.rbufstate_,
        (runs perform [.openCommand ⟨false, true, true⟩, .read_err true] x.2).map Prod.fst)) =
          some ([.flag true, .octet (some 111), .flag true, .flag true], ⟨.into 0 2, .into 0 2, .into 0 4⟩,
          some [.flag true, .flag true]) := by decide +kernel
  obtain ⟨⟨rs, s⟩, hruns, heq⟩ := Option.map_eq_some_iff.mp hruns
  obtain ⟨rfl, heq⟩ := Prod.mk.inj heq
  obtain ⟨hsaved, hagain⟩ := Prod.mk.inj heq
  obtain ⟨⟨rs', u⟩, hagain, rfl⟩ := Option.map_eq_some_iff.mp hagain
  obtain ⟨r, t, rs', hrs, hopen, hrest⟩ := runs_cons hagain
  obtain ⟨rfl, rfl⟩ := List.cons.inj hrs
  obtain ⟨r, u', rs', hrs, hswitch, hnil⟩ := runs_cons hrest
  obtain ⟨rfl, rfl⟩ := List.cons.inj hrs
  have hready : Ready (.openCommand ⟨false, true, true⟩) (started k) :=
    .inr ⟨(started_closed k).empty, fun _ _ => rfl⟩
  have hreach := program.Reaches.of_runs_cons hready (by simp [Ready]) hruns
  have hempty := ((inOrder_of_reaches hreach).2 [_, _, _] _ rfl).empty
  refine ⟨k, s, t, u', hreach, hopen, hswitch, (reopened_over_freed hreach hempty rfl hopen hswitch).mpr ?_⟩
  change s.buf.rbufstate_ = _ at hsaved
  rw [hsaved]
  decide

end

end taraxacum.pstream
