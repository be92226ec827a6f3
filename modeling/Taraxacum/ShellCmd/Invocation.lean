import Taraxacum.Pstream.Capture

open json exec
open taraxacum.rapidjson taraxacum.pstream transition

namespace taraxacum.ShellCmd

/-- Where an invocation is: about to start its command, in its loops with the child beside
    it, in the destructor of `proc` that waits for the child, or past its end. -/
inductive Place (C : Nat) where
  | opening (command : Bytes)
  | looping (system : System C)
  | leaving (child : List Action)
  | ended (outcome : Outcome Exception Unit)

/-- An invocation with what it has done. -/
structure Invocation (C : Nat) where
  events : List Event
  place : Place C

section
variable {C : Nat}

/-- What the handler has done by itself before its loops. -/
def begin (call : Call (Option Bytes)) : Invocation C where
  events := call.events
  place := match call.outcome with
    | .returned (some command) => .opening command
    | .returned none => .ended (.returned ())
    | .threw e => .ended (.threw e)
    | .aborted => .ended .aborted
    | .undefined => .ended .undefined

section
variable (children : Bytes → List Action)

/-- A step of an invocation or of the child that runs its command. -/
inductive Step : Invocation C → Invocation C → Prop where
  | opened {events : List Event} {command : Bytes} :
      Step ⟨events, .opening command⟩ ⟨events, .looping (.start (children command))⟩
  | unopened {events : List Event} {command : Bytes} :
      Step ⟨events, .opening command⟩ ⟨events, .looping .unopened⟩
  | loop {events : List Event} {s t : System C} (hstep : pstream.Step s t) :
      Step ⟨events, .looping s⟩ ⟨events, .looping t⟩
  | respond {events : List Event} {s : System C} (hsent : s.shell.control = .sent) :
      Step ⟨events, .looping s⟩ ⟨events ++ (respond s.shell.captured).events, .leaving s.child⟩
  -- With the reading ends closed nothing the child still does blocks it.
  | child {events : List Event} {a : Action} {child : List Action} :
      Step ⟨events, .leaving (a :: child)⟩ ⟨events, .leaving child⟩
  | waited {events : List Event} : Step ⟨events, .leaving []⟩ ⟨events, .ended (.returned ())⟩

/-- What is left to do. An invocation that has its response still to send has more to do
    than its child after that. -/
def cost : Invocation C → Nat
  | ⟨_, .opening command⟩ =>
    (System.start (children command) : System C).cost + (System.unopened : System C).cost + 3
  | ⟨_, .looping system⟩ => system.cost + 2
  | ⟨_, .leaving child⟩ => child.length + 1
  | ⟨_, .ended _⟩ => 0

/-- Each action of a child costs one step at least. -/
theorem length_le_cost (child : List Action) : child.length ≤ pstream.cost child := by
  induction child with
  | nil => exact Nat.zero_le _
  | cons a child ih =>
    have hpos : 1 ≤ a.cost := by
      cases a <;> simp [Action.cost]
    rw [List.length_cons, pstream.cost]
    omega

/-- Every step brings the end of the invocation nearer. -/
theorem cost_lt (i j : Invocation C) (h : Step children i j) : cost children j < cost children i := by
  cases h with
  | opened | unopened =>
    simp only [cost]
    omega
  | loop hstep =>
    have hlt := cost_step _ _ hstep
    simp only [cost]
    omega
  | @respond events s hsent =>
    have hle := length_le_cost s.child
    simp only [cost, System.cost]
    omega
  | child | waited => simp [cost]

/-- Nothing comes after the end of an invocation. -/
theorem stuck_ended (events : List Event) (outcome : Outcome Exception Unit) :
    Stuck (Step children) (⟨events, .ended outcome⟩ : Invocation C) := by
  intro j h
  cases h

end

/-- The loops of a handler whose command was not started: both of its conditions are false. -/
structure Unopened (s : System C) : Prop where
  shell : s.shell.proc.good = false
  child : s.child = []
  closed : ∀ fd, (s.pipes fd).wopen = false
  control : s.shell.control = .sent ∨ ∃ src, s.shell.control = .condition src
  captured : s.shell.captured = ⟨[], []⟩

/-- The loops over a stream that `popen` did not open. -/
theorem unopened_unopened : Unopened (System.unopened : System C) :=
  ⟨rfl, rfl, fun _ => rfl, .inr ⟨.rsrc_out, rfl⟩, rfl⟩

/-- Loops over a stream that was not opened read nothing, so that both of them end at their first
    condition. -/
theorem Unopened.step {s t : System C} (h : Unopened s) (hstep : pstream.Step s t) : Unopened t := by
  obtain ⟨hgood, hchild, hclosed, hcontrol, hcaptured⟩ := h
  rcases hstep with hstep | hstep
  · cases hstep with
    | write hsome | written hsome | refused hsome | close hsome | exit hsome =>
      rw [hchild] at hsome
      cases hsome
    | finish _ hopen =>
      rw [hclosed] at hopen
      cases hopen
  · obtain ⟨child, pipes, control, proc, captured⟩ := s
    rcases hcontrol with hcontrol | ⟨src, hcontrol⟩
    · obtain rfl : control = .sent := hcontrol
      cases hstep with
      | advance hadvance => cases hadvance
      | read hreads | eof hreads => cases hreads
    · obtain rfl : control = .condition src := hcontrol
      cases hstep with
      | advance hadvance =>
        have hselected : (Shell.select proc src).good = false := (Shell.select_good proc src).trans hgood
        simp only [Shell.advance, hselected, Bool.false_eq_true, if_false, Option.some.injEq] at hadvance
        subst hadvance
        refine ⟨basic_ipstream.good_of_failbit rfl, hchild, hclosed, ?_, hcaptured⟩
        cases src with
        | rsrc_out => exact .inr ⟨.rsrc_err, rfl⟩
        | rsrc_err => exact .inl rfl
      | read hreads | eof hreads => cases hreads

/-- Nothing holds such loops up before the response. -/
theorem Unopened.progress {s : System C} (h : Unopened s) (hsent : s.shell.control ≠ .sent) :
    ∃ t, pstream.Step s t := by
  obtain ⟨src, hcontrol⟩ := h.control.resolve_left hsent
  have hadvance : ∃ shell, s.shell.advance = some shell := by
    simp only [Shell.advance, hcontrol]
    split_ifs <;> exact ⟨_, rfl⟩
  obtain ⟨shell, hshell⟩ := hadvance
  exact ⟨_, .inr (.advance hshell)⟩

/-- What an invocation that starts `command` has done when it has come to its response:
    the child's stdout is in it, or nothing if the child could not be started. -/
def Responded (children : Bytes → List Action) (before : List Event) (command : Bytes)
    (events : List Event) : Prop :=
  ∃ ssout, (ssout = strip (output .rsrc_out (children command)) ∨ ssout = []) ∧
    events = before ++ [.fclose, .send (jresp ⟨ssout, []⟩)]

/-- What holds of an invocation after `before` and the start of `command`. -/
def Runs (children : Bytes → List Action) (before : List Event) (command : Bytes) (i : Invocation C) : Prop :=
  match i.place with
  | .opening c => c = command ∧ i.events = before
  | .looping s => (Reaches (children command) s ∨ Unopened s) ∧ i.events = before
  | .leaving _ => Responded children before command i.events
  | .ended outcome => outcome = .returned () ∧ Responded children before command i.events

section
variable {children : Bytes → List Action} {before : List Event} {command : Bytes}

/-- One step of an invocation keeps what is known of it: before the response nothing is added to the
    events, and the response has the child's stdout in it, or nothing if the child could not be
    started. -/
theorem Runs.step {i j : Invocation C} (h : Runs children before command i) (hstep : Step children i j) :
    Runs children before command j := by
  cases hstep with
  | opened =>
    obtain ⟨rfl, hevents⟩ := h
    exact ⟨.inl .refl, hevents⟩
  | unopened => exact ⟨.inr unopened_unopened, h.2⟩
  | loop hloop =>
    obtain ⟨hreach | hunopened, hevents⟩ := h
    · exact ⟨.inl (hreach.tail hloop), hevents⟩
    · exact ⟨.inr (hunopened.step hloop), hevents⟩
  | @respond events s hsent =>
    obtain ⟨hloops, rfl⟩ := h
    have hcaptured : ∃ ssout, (ssout = strip (output .rsrc_out (children command)) ∨ ssout = []) ∧
        s.shell.captured = ⟨ssout, []⟩ := by
      rcases hloops with hreach | hunopened
      · obtain ⟨hssout, hsserr⟩ := captured_of_sent hreach hsent
        refine ⟨_, .inl rfl, ?_⟩
        rw [← hssout, ← hsserr]
      · exact ⟨[], .inr rfl, hunopened.captured⟩
    obtain ⟨ssout, hssout, hcaptured⟩ := hcaptured
    exact ⟨ssout, hssout, by rw [hcaptured]; rfl⟩
  | child => exact h
  | waited => exact ⟨rfl, h⟩

/-- An invocation whose child does not fill stderr stops nowhere before its end. -/
theorem Runs.ended_of_stuck (hC : 1 ≤ C) (hle : (ahead (children command)).length ≤ C) {i : Invocation C}
    (h : Runs children before command i) (hstuck : Stuck (Step children) i) :
    i.place = .ended (.returned ()) ∧ Responded children before command i.events := by
  obtain ⟨events, place⟩ := i
  cases place with
  | opening c => exact absurd .opened (hstuck _)
  | looping s =>
    by_cases hsent : s.shell.control = .sent
    · exact absurd (.respond hsent) (hstuck _)
    · have hprogress : ∃ t, pstream.Step s t := by
        obtain ⟨hreach | hunopened, -⟩ := h
        · exact (tracks_of_reaches hreach).progress hC hle hsent
        · exact hunopened.progress hsent
      obtain ⟨t, ht⟩ := hprogress
      exact absurd (.loop ht) (hstuck _)
  | leaving child =>
    cases child with
    | nil => exact absurd .waited (hstuck _)
    | cons a child => exact absurd .child (hstuck _)
  | ended outcome =>
    obtain ⟨rfl, hresponded⟩ := h
    exact ⟨rfl, hresponded⟩

/-- However the loops and the child interleave, the invocation comes to its end, with
    the child's stdout in its one response. -/
theorem runsTo_response (hC : 1 ≤ C) (hle : (ahead (children command)).length ≤ C) :
    RunsTo (Step children) (fun i => i.place = .ended (.returned ()) ∧
      Responded children before command i.events)
      (⟨before, .opening command⟩ : Invocation C) := by
  rw [runsTo_iff (cost_lt children)]
  intro i hreach hstuck
  have hruns : Runs children before command i := by
    refine invariant_of_step (fun i j (hi : Runs children before command i) hij => hi.step hij) ?_ hreach
    exact ⟨rfl, rfl⟩
  exact hruns.ended_of_stuck hC hle hstuck

/-- Steps of the loops and of the child are steps of the invocation. -/
theorem reaches_loop {s t : System C} (hreach : Relation.ReflTransGen pstream.Step s t) :
    Relation.ReflTransGen (Step children) (⟨before, .looping s⟩ : Invocation C) ⟨before, .looping t⟩ := by
  induction hreach with
  | refl => exact .refl
  | tail _ hlast ih => exact ih.tail (.loop hlast)

/-- A child that fills stderr before it closes a stream can leave the invocation in its
    first loop for ever, with nothing sent. -/
theorem blocked_of_ahead (hC : 1 ≤ C) (hlt : C < (ahead (children command)).length) :
    ∃ s : System C, Relation.ReflTransGen (Step children) (⟨before, .opening command⟩ : Invocation C)
      ⟨before, .looping s⟩ ∧ Stuck (Step children) (⟨before, .looping s⟩ : Invocation C) := by
  obtain ⟨s, hreach, hsent, -, hstuck⟩ := deadlock_reached hC hlt
  refine ⟨s, .head .opened (reaches_loop hreach), ?_⟩
  intro j hstep
  cases hstep with
  | loop hloop => exact hstuck _ hloop
  | respond h => exact hsent h

end

end

end taraxacum.ShellCmd
