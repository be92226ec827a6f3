import Taraxacum.Pstream.Opening

open json memory program Program Function

namespace taraxacum.pstream

/-- A buffer that has neither a pipe nor an array: it has been closed, or was never opened. -/
structure basic_pstreambuf.Empty (buf : basic_pstreambuf) : Prop where
  wpipe : buf.wpipe_ = none
  rpipe : ∀ src, buf.rpipe_ src = none
  wbuffer : buf.wbuffer_ = .null
  rbuffer : ∀ src, buf.rbuffer_ src = .null

/-- What can be opened. Of one that is open `open` does nothing. Any other has to be empty, and if
    both sources are wanted nothing may be left of an earlier change between them. -/
def Openable (mode : pmode) (buf : basic_pstreambuf) : Prop :=
  buf.is_open = true ∨ buf.Empty ∧ (mode.pstdout = true → mode.pstderr = true → buf.rbufstate_ = .NULL)

/-- When an operation can be called. A file is not opened here, only a command. -/
def Ready (op : Op) (s : Process) : Prop :=
  match op with
  | .openCommand mode => Openable mode s.buf
  | .openFile _ => s.buf.is_open = true
  | _ => True

/-- A process with a buffer that has been constructed, on a system that will answer as `k` does,
    but for `::close`: an open end of a pipe can be closed. -/
def started (k : Kernel) : Process where
  heap := .empty
  kernel := { k with
    fds := [], fresh := 0, written := fun _ => [], received := fun _ => [], closes := fun _ => .ok () }
  buf := .constructed

/-- A constructed buffer is closed. -/
theorem started_closed (k : Kernel) : (started k).Closed := by
  refine .of_null ⟨.inl rfl, fun _ => .inl rfl, fun _ _ => rfl, fun _ => rfl,
    ?_⟩ ?_ rfl rfl rfl rfl rfl rfl rfl rfl
  · rintro b n ⟨cells, hcells, -⟩
    exact absurd (Heap.lt_of_cells hcells) (Nat.not_lt_zero b)
  · exact ⟨.refl _, List.nodup_nil, fun fd hfd => (by cases hfd), fun _ _ => rfl, fun _ _ => rfl, fun _ => rfl⟩

section
variable {s : Process} {contents : buf_read_src → Contents} {pending : Bytes}

/-- An empty buffer shows nothing. -/
theorem Process.Sound.nothing (hs : s.Sound contents pending) (he : s.buf.Empty) :
    contents = (fun _ => .none) ∧ pending = [] := by
  refine ⟨funext fun src => hs.layout.unopened src (he.rpipe src), ?_⟩
  rcases hs.layout.pending with ⟨-, -, -, -, hnil⟩ | ⟨b, hb, -⟩
  · exact hnil
  · rw [he.wbuffer] at hb
    cases hb

/-- What is in order and holds nothing is closed. -/
theorem Process.Sound.closed (hs : s.Sound contents pending) (he : s.buf.Empty) : s.Closed := by
  obtain ⟨rfl, rfl⟩ := hs.nothing he
  have hl := hs.layout
  refine ⟨hs, fun b n hb => ?_, ?_⟩
  · rcases hl.owned b n hb with hw | ⟨src, hr⟩
    · rw [he.wbuffer] at hw
      cases hw
    · rw [he.rbuffer] at hr
      cases hr
  · have hperm := hs.descriptors.perm
    rw [List.nil_append, basic_pstreambuf.held, he.wpipe, he.rpipe, he.rpipe] at hperm
    exact hperm.eq_nil

/-- A closed buffer has neither descriptors nor arrays. -/
theorem Process.Closed.empty (hc : s.Closed) : s.buf.Empty := ⟨hc.wpipe, hc.rpipe, hc.wbuffer, hc.rbuffer⟩

open basic_pstreambuf Queues

/-- What an operation does is what the function does that it calls. -/
theorem wp_call {α : Type} {x : Program Process α} {f : α → Ret} {R : α → Queues → Prop} {op : Op} {q : Queues}
    (hx : wp x (Leaves R) s) (hR : ∀ a q', R a q' → q.Step op (f a) q') (hop : op ≠ .close) :
    wp (f <$> x) (fun r t => Leaves (q.Step op) r t ∧ (op = .close → t.Closed)) s := by
  rw [wp_map]
  refine wp_mono ?_ hx
  exact fun a t hleaves => ⟨hleaves.mono (hR a), fun hclose => absurd hclose hop⟩

/-- What is proved of an operation that reads says what it leaves. -/
theorem leaves_of_reads {α : Type} {x : Program Process α} {R : α → Queues → Prop}
    (hx : wp x (Reads pending R) s) :
    wp x (Leaves R) s := wp_mono (fun _ _ hreads => hreads.leaves fun _ => id) hx

/-- Each operation that is ready goes well, and does to the queues what it is for. -/
theorem perform_spec (hs : s.Sound contents pending) (hreadable : s.Readable) {op : Op} (hready : Ready op s) :
    wp (perform op) (fun r t => Leaves ((s.queues contents pending).Step op) r t ∧
      (op = .close → t.Closed)) s := by
  cases op with
  | openCommand mode =>
    rcases hready with hopen | ⟨hempty, hsaved⟩
    · exact wp_call (not_open_spec hs hreadable hopen) (fun _ _ => .openCommand) Op.noConfusion
    · obtain ⟨rfl, rfl⟩ := hs.nothing hempty
      exact wp_call (openCommand_spec (hs.closed hempty) hsaved) (fun _ _ => .openCommand) Op.noConfusion
  | openFile mode =>
    have hopen : s.buf.is_open = true := hready
    rw [perform, wp_map, openFile, wp_bind, Process.wp_self, if_pos hopen, wp_pure]
    exact ⟨⟨hreadable, contents, pending, hs, .not_openFile⟩, Op.noConfusion⟩
  | close =>
    rw [perform, wp_map]
    refine wp_mono ?_ (close_spec hs hreadable)
    exact fun b t ⟨hc, hstep⟩ => ⟨⟨hc.readable, _, _, hc.sound, hstep⟩, fun _ => hc⟩
  | kill => exact wp_call (kill_spec hs hreadable) (fun _ _ hq => by rw [hq]; exact .kill) Op.noConfusion
  | killpg => exact wp_call (killpg_spec hs hreadable) (fun _ _ hq => by rw [hq]; exact .killpg) Op.noConfusion
  | peof => exact wp_call (peof_spec hs hreadable) (fun _ _ => id) Op.noConfusion
  | read_err readerr => exact wp_call (read_err_spec hs hreadable readerr) (fun _ _ => id) Op.noConfusion
  | exited => exact wp_call (exited_spec hs hreadable) (fun _ _ => .exited) Op.noConfusion
  | sgetc => exact wp_call (leaves_of_reads (sgetc_spec hs hreadable)) (fun _ _ => .sgetc) Op.noConfusion
  | sbumpc => exact wp_call (leaves_of_reads (sbumpc_spec hs hreadable)) (fun _ _ => .sbumpc) Op.noConfusion
  | sgetn n =>
    exact wp_call (leaves_of_reads (sgetn_spec hs hreadable n)) (fun _ _ hq => .sgetn hq.1 hq.2) Op.noConfusion
  | sungetc => exact wp_call (leaves_of_reads (sungetc_spec hs hreadable)) (fun _ _ => id) Op.noConfusion
  | sputbackc c =>
    exact wp_call (leaves_of_reads (sputbackc_spec hs hreadable c)) (fun _ _ => id) Op.noConfusion
  | in_avail => exact wp_call (leaves_of_reads (in_avail_spec hs hreadable)) (fun _ _ => id) Op.noConfusion
  | sputc c => exact wp_call (sputc_spec hs hreadable c) (fun _ _ => .sputc) Op.noConfusion
  | sputn cs => exact wp_call (xsputn_spec hs hreadable cs) (fun _ _ => .sputn) Op.noConfusion
  | pubsync => exact wp_call (sync_spec hs hreadable) (fun _ _ => .pubsync) Op.noConfusion

/-- What holds of the process all along: everything is in order. -/
structure Process.InOrder (s : Process) : Prop where
  readable : s.Readable
  sound : ∃ contents pending, s.Sound contents pending

/-- Every operation that may be called keeps the buffer in order, and `close` closes it. -/
theorem Process.InOrder.perform (ho : s.InOrder) {op : Op} (hready : Ready op s) :
    wp (perform op) (fun _ t => t.InOrder ∧ (op = .close → t.Closed)) s := by
  obtain ⟨hreadable, contents, pending, hs⟩ := ho
  refine wp_mono ?_ (perform_spec hs hreadable hready)
  rintro r t ⟨⟨hreadable', contents', pending', hs', -⟩, hclose⟩
  exact ⟨⟨hreadable', contents', pending', hs'⟩, hclose⟩

/-- A constructed buffer is in order. -/
theorem started_inOrder (k : Kernel) : (started k).InOrder :=
  ⟨(started_closed k).readable, _, _, (started_closed k).sound⟩

/-- In every run, whatever the system answers, the buffer is in order, and it is closed whenever the
    last operation was `close`. -/
theorem inOrder_of_reaches {k : Kernel} {calls : List (Op × Ret)} {t : Process}
    (hreach : program.Reaches perform Ready (started k) calls t) :
    t.InOrder ∧ ∀ earlier r, calls = earlier ++ [(.close, r)] → t.Closed := by
  refine hreach.invariant (I := fun calls t => t.InOrder ∧ ∀ earlier r,
    calls = earlier ++ [(.close, r)] → t.Closed)
    ⟨started_inOrder k, fun earlier r h => ?_⟩ fun calls s op hs hready => ?_
  · exact absurd h.symm (List.append_ne_nil_of_right_ne_nil _ (List.cons_ne_nil _ _))
  · refine wp_mono ?_ (hs.1.perform hready)
    rintro r u ⟨ho, hclose⟩
    refine ⟨ho, fun earlier r' h => hclose ?_⟩
    have hlast := List.singleton_inj.mp (List.append_inj_right' h rfl)
    exact congrArg Prod.fst hlast

/-- The descriptors that are open are those the buffer holds, each array that is allocated is one of
    its three, and no operation that can be called goes wrong. After a `close` nothing is left. -/
theorem nothing_leaks {k : Kernel} {calls : List (Op × Ret)} {t : Process}
    (hreach : program.Reaches perform Ready (started k) calls t) :
    t.kernel.fds.Perm t.buf.held ∧
    (∀ b n, t.heap.Live b n → .into b 0 = t.buf.wbuffer_ ∨ ∃ src, .into b 0 = t.buf.rbuffer_ src) ∧
    (∀ op, Ready op t → perform op t ≠ .fault) ∧
    ∀ earlier r, calls = earlier ++ [(.close, r)] → t.kernel.fds = [] ∧ ∀ b n, ¬t.heap.Live b n := by
  obtain ⟨ho, hclosed⟩ := inOrder_of_reaches hreach
  obtain ⟨contents, pending, hs⟩ := ho.sound
  refine ⟨hs.descriptors.perm, hs.layout.owned, fun op hready => ?_, fun earlier r h => ?_⟩
  · exact not_fault_of_wp (ho.perform hready)
  have hc := hclosed earlier r h
  exact ⟨hc.fds, hc.live⟩

/-- A system that makes pipes and a child, from which a few octets come and to which one goes at a time. -/
def obliging : Kernel where
  fds := []
  fresh := 0
  written _ := []
  received _ := []
  pipes := [.ok (), .ok (), .ok ()]
  forks := [.ok 41]
  waits := [.ok none, .ok (some 0)]
  reads := [.ok [111, 107], .ok [33]]
  writes := [.ok 1, .ok 1]
  fcntls := []
  kills := []
  getpgids := []
  closes _ := .ok ()
  getpgrp := 7

/-- The constructed buffer may be opened. -/
theorem obliging_ready : Ready (.openCommand ⟨true, true, true⟩) (started obliging) :=
  .inr ⟨(started_closed obliging).empty, fun _ _ => rfl⟩

/-- A run that opens for all three streams, writes, reads what has come and closes: nothing is open
    or allocated after it. -/
theorem nothing_leaks_once : ∃ t, program.Reaches perform Ready (started obliging)
    [(.openCommand ⟨true, true, true⟩, .flag true), (.sputn [72, 105], .count 2), (.sbumpc, .octet (some 111)),
      (.close, .flag true)] t ∧ t.kernel.fds = [] ∧ ∀ b n, ¬t.heap.Live b n := by
  have hruns : (runs perform [.openCommand ⟨true, true, true⟩, .sputn [72, 105], .sbumpc, .close]
    (started obliging)).map
      Prod.fst = some [.flag true, .count 2, .octet (some 111), .flag true] := by decide +kernel
  obtain ⟨⟨rs, t⟩, hruns, rfl⟩ := Option.map_eq_some_iff.mp hruns
  have hreach := program.Reaches.of_runs_cons obliging_ready (by simp [Ready]) hruns
  exact ⟨t, hreach, (nothing_leaks hreach).2.2.2 [_, _, _] _ rfl⟩

end

end taraxacum.pstream
