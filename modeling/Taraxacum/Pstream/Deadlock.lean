import Taraxacum.Pstream.Invariant
import Taraxacum.Pstream.Termination

open json Function
open transition

namespace taraxacum.pstream

section
variable {C : Nat}

namespace System

/-- The child is blocked writing to a full pipe. -/
def ChildBlocked (s : System C) (fd : buf_read_src) : Prop :=
  ∃ bs child, s.child = .write fd bs :: child ∧ bs ≠ [] ∧ (s.pipes fd).wopen = true ∧
    (s.pipes fd).buf.length = C

/-- The handler is blocked reading an empty pipe. -/
def ShellBlocked (s : System C) (src : buf_read_src) : Prop :=
  s.shell.reads = some src ∧ (s.pipes src).buf = [] ∧ (s.pipes src).wopen = true

/-- Either party waits for the other. -/
def Deadlocked (s : System C) : Prop := ∃ fd src, src ≠ fd ∧ s.ChildBlocked fd ∧ s.ShellBlocked src

end System

/-- Before the response is sent no state is a deadlock, and each has a successor. -/
def DeadlockFree (C : Nat) (p : List Action) : Prop :=
  ∀ s : System C, Reaches p s → s.shell.control ≠ .sent → ¬ s.Deadlocked ∧ ∃ t, Step s t

/-- A handler that has not sent its response goes on, or waits in `read` for a child that has the
    pipe open. -/
theorem shell_step_or_blocked {s : System C} (hsent : s.shell.control ≠ .sent) :
    (∃ t, ShellStep s t) ∨ ∃ src, s.ShellBlocked src := by
  by_cases hadvance : ∃ shell, s.shell.advance = some shell
  · obtain ⟨shell, hshell⟩ := hadvance
    exact .inl ⟨_, .advance hshell⟩
  · obtain ⟨src, hreads⟩ := Shell.reads_of_not_advance hsent hadvance
    cases hbuf : (s.pipes src).buf with
    | nil =>
      cases hopen : (s.pipes src).wopen with
      | false => exact .inl ⟨_, .eof hreads hbuf hopen⟩
      | true => exact .inr ⟨src, hreads, hbuf, hopen⟩
    | cons b bs =>
      refine .inl ⟨_, .read hreads Nat.one_pos ?_ (by decide)⟩
      rw [hbuf]
      exact Nat.le_add_left ..

/-- A child goes on, waits for room in a pipe, or has closed both of its streams. -/
theorem child_step_or_blocked (s : System C) :
    (∃ t, ChildStep s t) ∨ (∃ fd, s.ChildBlocked fd) ∨ ∀ fd, (s.pipes fd).wopen = false := by
  cases hchild : s.child with
  | nil =>
    by_cases hopen : ∃ fd, (s.pipes fd).wopen = true
    · obtain ⟨fd, hfd⟩ := hopen
      exact .inl ⟨_, .finish hchild hfd⟩
    · exact .inr (.inr (by simpa using hopen))
  | cons a child =>
    cases a with
    | exit => exact .inl ⟨_, .exit hchild⟩
    | close fd => exact .inl ⟨_, .close hchild⟩
    | write fd bs =>
      cases hopen : (s.pipes fd).wopen with
      | false => exact .inl ⟨_, .refused hchild hopen⟩
      | true =>
        cases bs with
        | nil => exact .inl ⟨_, .written hchild⟩
        | cons b bs =>
          by_cases hfull : (s.pipes fd).buf.length = C
          · exact .inr (.inl ⟨fd, b :: bs, child, hchild, List.cons_ne_nil b bs, hopen, hfull⟩)
          · have hbounded := (s.pipes fd).bounded
            refine .inl ⟨_, .write (n := 1) hchild hopen Nat.one_pos (Nat.le_add_left ..) ?_⟩
            simp only [List.take_succ_cons, List.take_zero, List.length_singleton]
            omega

/-- While stdout is open, a child that is to write no more than the capacity to stderr
    finds room there. -/
theorem Tracks.not_blocked_err {p : List Action} {s : System C} (h : Tracks p s) (hle : (ahead p).length ≤ C)
    (hopen : (s.pipes .rsrc_out).wopen = true) : ¬ s.ChildBlocked .rsrc_err := by
  rintro ⟨bs, child, hchild, hbs, herr, hfull⟩
  have hpent := h.pent hopen
  have hpos := List.length_pos_of_ne_nil hbs
  simp only [System.pent, herr, if_true, hchild, ahead, List.length_append] at hpent
  omega

/-- Both wait only if the child has filled stderr before it first closes a stream, which takes more
    octets than the pipe has room for. -/
theorem Tracks.not_deadlocked {p : List Action} {s : System C} (h : Tracks p s) (hle : (ahead p).length ≤ C) :
    ¬ s.Deadlocked := by
  rintro ⟨fd, src, hne, hchild, hreads, _, hopen⟩
  obtain ⟨rfl, _⟩ := h.reader.of_reads hreads
  cases fd with
  | rsrc_out => exact hne rfl
  | rsrc_err => exact h.not_blocked_err hle hopen hchild

/-- Within the bound somebody can always go on until the response is sent, whatever has been done
    before. The pipe has room for one octet at least. -/
theorem Tracks.progress {p : List Action} {s : System C} (h : Tracks p s) (hC : 1 ≤ C)
    (hle : (ahead p).length ≤ C) (hsent : s.shell.control ≠ .sent) : ∃ t, Step s t := by
  rcases shell_step_or_blocked hsent with ⟨t, hstep⟩ | ⟨src, hreads, hempty, hopen⟩
  · exact ⟨t, .inr hstep⟩
  obtain ⟨rfl, _⟩ := h.reader.of_reads hreads
  rcases child_step_or_blocked s with ⟨t, hstep⟩ | ⟨fd, hblocked⟩ | hclosed
  · exact ⟨t, .inl hstep⟩
  · cases fd with
    | rsrc_out =>
      obtain ⟨_, _, _, _, _, hfull⟩ := hblocked
      rw [hempty, List.length_nil] at hfull
      omega
    | rsrc_err => exact absurd hblocked (h.not_blocked_err hle hopen)
  · rw [hclosed] at hopen
    cases hopen

/-- A child closes stdout only after it has written to stderr all it has to write
    there first, which then is in the pipe. -/
theorem ChildStep.pent_le {s t : System C} (h : ChildStep s t) (hopen : (s.pipes .rsrc_out).wopen = true)
    (hclosed : (t.pipes .rsrc_out).wopen = false) : s.pent ≤ C := by
  have hbounded := (s.pipes .rsrc_err).bounded
  have hahead : ahead s.child = [] := by
    cases h with
    | @write fd _ _ _ _ hfd =>
      exfalso
      cases fd with
      | rsrc_out => simp [hopen] at hclosed
      | rsrc_err => simp [hopen] at hclosed
    | written | refused =>
      rw [hopen] at hclosed
      cases hclosed
    | @close fd child hchild =>
      rw [hchild, ahead]
    | exit hchild => rw [hchild, ahead]
    | finish hchild => rw [hchild, ahead]
  simp only [System.pent, hahead, List.length_nil, ite_self, Nat.add_zero]
  exact hbounded

/-- A child that is to write more than that to stderr never closes stdout. -/
theorem out_open_of_reaches {p : List Action} {s : System C} (hlt : C < (ahead p).length)
    (h : Reaches p s) : (s.pipes .rsrc_out).wopen = true := by
  have hboth : Tracks p s ∧ (s.pipes .rsrc_out).wopen = true := by
    apply invariant_of_step (I := fun s : System C => Tracks p s ∧ (s.pipes .rsrc_out).wopen = true) ?_
      ⟨tracks_start p, rfl⟩ h
    rintro s t ⟨htracks, hopen⟩ (hstep | hstep)
    · refine ⟨htracks.child hstep, ?_⟩
      by_contra hclosed
      have hle := hstep.pent_le hopen (by simpa using hclosed)
      rw [htracks.pent hopen] at hle
      omega
    · refine ⟨htracks.shell hstep, ?_⟩
      cases hstep with
      | advance => exact hopen
      | @read src => cases src <;> simpa using hopen
      | eof => exact hopen
  exact hboth.2

/-- Such a child and the handler end up waiting for each other. -/
theorem deadlock_reached {p : List Action} (hC : 1 ≤ C) (hlt : C < (ahead p).length) :
    ∃ s : System C, Reaches p s ∧ s.shell.control ≠ .sent ∧ s.Deadlocked ∧ Stuck Step s := by
  obtain ⟨s, hreach, hstuck⟩ := exists_stuck cost_step (System.start p : System C)
  have hopen := out_open_of_reaches hlt hreach
  have hreader := (tracks_of_reaches hreach).reader
  have hsent : s.shell.control ≠ .sent := by
    intro hsent
    rw [Reader, hsent] at hreader
    rw [hreader.1] at hopen
    cases hopen
  refine ⟨s, hreach, hsent, ?_, hstuck⟩
  rcases shell_step_or_blocked hsent with ⟨t, hstep⟩ | ⟨src, hshell⟩
  · exact absurd (.inr hstep) (hstuck t)
  obtain ⟨rfl, _⟩ := hreader.of_reads hshell.1
  rcases child_step_or_blocked s with ⟨t, hstep⟩ | ⟨fd, hchild⟩ | hclosed
  · exact absurd (.inl hstep) (hstuck t)
  · refine ⟨fd, .rsrc_out, ?_, hchild, hshell⟩
    rintro rfl
    obtain ⟨_, _, _, _, _, hfull⟩ := hchild
    rw [hshell.2.1, List.length_nil] at hfull
    omega
  · rw [hclosed] at hopen
    cases hopen

/-- The handler and its child never deadlock exactly when the child writes no more to
    stderr than the pipe holds before it first closes a stream or exits. -/
theorem deadlockFree_iff {C : Nat} (hC : 1 ≤ C) (p : List Action) :
    DeadlockFree C p ↔ (ahead p).length ≤ C := by
  constructor
  · intro hfree
    by_contra hlt
    obtain ⟨s, hreach, hsent, hdeadlocked, _⟩ := deadlock_reached hC (Nat.lt_of_not_le hlt)
    exact (hfree s hreach hsent).1 hdeadlocked
  · intro hle s hreach hsent
    have htracks := tracks_of_reaches hreach
    exact ⟨htracks.not_deadlocked hle, htracks.progress hC hle hsent⟩

end

/-- A child that fills stderr before it writes to stdout: the pipe has room for all of it. -/
theorem deadlockFree_full : DeadlockFree 2 [.write .rsrc_err (lit "xx"), .write .rsrc_out (lit "a\n")] :=
  (deadlockFree_iff (Nat.le_succ 1) _).mpr (by decide)

/-- A child that writes two octets to stderr, with room for one: while it waits for
    room there, the handler waits for stdout. -/
theorem deadlockFree_fails : ¬ ∀ (C : Nat) (p : List Action), 1 ≤ C → DeadlockFree C p := by
  intro h
  obtain ⟨s, hreach, hsent, hdeadlocked, _⟩ :=
    deadlock_reached (Nat.le_refl 1) (show 1 < (ahead [.write .rsrc_err (lit "xx")]).length by decide)
  exact (h 1 _ (Nat.le_refl 1) s hreach hsent).1 hdeadlocked

end taraxacum.pstream
