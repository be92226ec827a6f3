import Mathlib.Data.List.Basic

namespace exec

/-- How a call ends: with a value, with an exception, in a failed assertion, or
    in behaviour the language leaves undefined. -/
inductive Outcome (χ α : Type) where
  | returned (a : α)
  | threw (e : χ)
  | aborted
  | undefined
  deriving DecidableEq

/-- A call: the events it gave rise to, in order, and how it ended. -/
structure Exec (ε χ α : Type) where
  events : List ε
  outcome : Outcome χ α
  deriving DecidableEq

namespace Exec

variable {ε χ α β : Type}

protected def pure (a : α) : Exec ε χ α := ⟨[], .returned a⟩

protected def bind (x : Exec ε χ α) (f : α → Exec ε χ β) : Exec ε χ β :=
  match x.outcome with
  | .returned a => ⟨x.events ++ (f a).events, (f a).outcome⟩
  | .threw e => ⟨x.events, .threw e⟩
  | .aborted => ⟨x.events, .aborted⟩
  | .undefined => ⟨x.events, .undefined⟩

instance : Monad (Exec ε χ) where
  pure := Exec.pure
  bind := Exec.bind

def emit (e : ε) : Exec ε χ Unit := ⟨[e], .returned ()⟩

def raise (e : χ) : Exec ε χ α := ⟨[], .threw e⟩

def abort : Exec ε χ α := ⟨[], .aborted⟩

def undefinedBehaviour : Exec ε χ α := ⟨[], .undefined⟩

/-- A `try` block with one handler for every exception: the block's value, or
    what it threw. Aborts and undefined behaviour are not exceptions. -/
def attempt (x : Exec ε χ α) : Exec ε χ (Except χ α) :=
  match x.outcome with
  | .returned a => ⟨x.events, .returned (.ok a)⟩
  | .threw e => ⟨x.events, .returned (.error e)⟩
  | .aborted => ⟨x.events, .aborted⟩
  | .undefined => ⟨x.events, .undefined⟩

/-- A call of another layer: its events under other names, and what it throws handled here. -/
def within {ε' χ' : Type} (name : ε → ε') (handle : χ → Exec ε' χ' α) (x : Exec ε χ α) : Exec ε' χ' α :=
  match x.outcome with
  | .returned a => ⟨x.events.map name, .returned a⟩
  | .threw e => ⟨x.events.map name ++ (handle e).events, (handle e).outcome⟩
  | .aborted => ⟨x.events.map name, .aborted⟩
  | .undefined => ⟨x.events.map name, .undefined⟩

theorem bind_def (x : Exec ε χ α) (f : α → Exec ε χ β) : x >>= f = x.bind f := rfl

theorem pure_def (a : α) : (pure a : Exec ε χ α) = ⟨[], .returned a⟩ := rfl

/-- Two executions with the same events and the same outcome are the same. -/
@[ext] theorem ext {x y : Exec ε χ α} (hevents : x.events = y.events) (houtcome : x.outcome = y.outcome) :
    x = y := by
  obtain ⟨events, outcome⟩ := x
  obtain ⟨events', outcome'⟩ := y
  obtain rfl : events = events' := hevents
  obtain rfl : outcome = outcome' := houtcome
  rfl

/-- The functor law for `id`, from the cases of the outcome. -/
private theorem id_map' (x : Exec ε χ α) : id <$> x = x := by
  obtain ⟨events, outcome⟩ := x
  cases outcome <;> simp [Functor.map, Exec.bind, Exec.pure]

/-- A value that is returned at once adds no events. -/
private theorem pure_bind' (a : α) (f : α → Exec ε χ β) : pure a >>= f = f a := by
  simp [bind_def, pure_def, Exec.bind]

/-- The events of three executions come one after the other however they are bracketed. -/
private theorem bind_assoc' {γ : Type} (x : Exec ε χ α) (f : α → Exec ε χ β) (g : β → Exec ε χ γ) :
    x >>= f >>= g = x >>= fun a => f a >>= g := by
  obtain ⟨events, outcome⟩ := x
  cases outcome with
  | returned a =>
    simp only [bind_def, Exec.bind]
    cases (f a).outcome <;> simp
  | threw | aborted | undefined => rfl

instance : LawfulMonad (Exec ε χ) := LawfulMonad.mk' (Exec ε χ) id_map' pure_bind' bind_assoc'

@[simp] theorem pure_events (a : α) : (pure a : Exec ε χ α).events = [] := rfl
@[simp] theorem pure_outcome (a : α) : (pure a : Exec ε χ α).outcome = .returned a := rfl

/-- An event comes before all that follows it. -/
@[simp] theorem emit_bind_events (e : ε) (f : Unit → Exec ε χ β) :
    (emit e >>= f).events = e :: (f ()).events := rfl

/-- An event does not decide how an execution ends. -/
@[simp] theorem emit_bind_outcome (e : ε) (f : Unit → Exec ε χ β) :
    (emit e >>= f).outcome = (f ()).outcome := rfl

/-- Nothing runs after an exception. -/
@[simp] theorem raise_bind (e : χ) (f : α → Exec ε χ β) : raise e >>= f = raise e := rfl
@[simp] theorem abort_bind (f : α → Exec ε χ β) : (abort : Exec ε χ α) >>= f = abort := rfl

@[simp] theorem emit_events (e : ε) : (emit e : Exec ε χ Unit).events = [e] := rfl
@[simp] theorem emit_outcome (e : ε) : (emit e : Exec ε χ Unit).outcome = .returned () := rfl
@[simp] theorem raise_events (e : χ) : (raise e : Exec ε χ α).events = [] := rfl
@[simp] theorem raise_outcome (e : χ) : (raise e : Exec ε χ α).outcome = .threw e := rfl
@[simp] theorem abort_outcome : (abort : Exec ε χ α).outcome = .aborted := rfl

@[simp] theorem undefinedBehaviour_outcome : (undefinedBehaviour : Exec ε χ α).outcome = .undefined := rfl

/-- A `try` block that returns has caught nothing. -/
@[simp] theorem attempt_pure (a : α) : attempt (pure a : Exec ε χ α) = pure (.ok a) := rfl
@[simp] theorem attempt_raise (e : χ) : attempt (raise e : Exec ε χ α) = pure (.error e) := rfl

/-- What the body of a `try` block has done before an exception stays done. -/
@[simp] theorem attempt_emit_bind (e : ε) (f : Unit → Exec ε χ α) :
    attempt (emit e >>= f) = emit e >>= fun _ => attempt (f ()) := by
  simp only [attempt, bind_def, Exec.bind, emit]
  cases (f ()).outcome <;> rfl

@[simp] theorem map_abort (f : α → β) : f <$> (abort : Exec ε χ α) = abort := rfl

/-- A sequence returns exactly when its first part returns a value on which the
    rest returns. -/
theorem bind_eq_returned_iff {x : Exec ε χ α} {f : α → Exec ε χ β} {b : β} :
    (x >>= f).outcome = .returned b ↔ ∃ a, x.outcome = .returned a ∧ (f a).outcome = .returned b := by
  obtain ⟨events, outcome⟩ := x
  cases outcome <;> simp [bind_def, Exec.bind]

/-- A sequence throws in its first part, or in its second after the first has returned. -/
theorem bind_eq_threw_iff {x : Exec ε χ α} {f : α → Exec ε χ β} {e : χ} :
    (x >>= f).outcome = .threw e ↔
      x.outcome = .threw e ∨ ∃ a, x.outcome = .returned a ∧ (f a).outcome = .threw e := by
  obtain ⟨events, outcome⟩ := x
  cases outcome <;> simp [bind_def, Exec.bind]

/-- A sequence aborts in its first part, or in its second after the first has returned. -/
theorem bind_eq_aborted_iff {x : Exec ε χ α} {f : α → Exec ε χ β} :
    (x >>= f).outcome = .aborted ↔
      x.outcome = .aborted ∨ ∃ a, x.outcome = .returned a ∧ (f a).outcome = .aborted := by
  obtain ⟨events, outcome⟩ := x
  cases outcome <;> simp [bind_def, Exec.bind]

/-- A pure step adds no events, whether it is reached or not. -/
theorem bind_pure_events (x : Exec ε χ α) (f : α → β) : (x >>= fun a => pure (f a)).events = x.events := by
  obtain ⟨events, outcome⟩ := x
  cases outcome with
  | returned a => exact List.append_nil events
  | threw | aborted | undefined => rfl

/-- Once the first part has returned, the events are those of both, in order. -/
theorem bind_events_of_returned {x : Exec ε χ α} {a : α} (h : x.outcome = .returned a)
    (f : α → Exec ε χ β) : (x >>= f).events = x.events ++ (f a).events := by
  simp [bind_def, Exec.bind, h]

/-- Once the first part has returned, the second decides how the sequence ends. -/
theorem bind_outcome_of_returned {x : Exec ε χ α} {a : α} (h : x.outcome = .returned a)
    (f : α → Exec ε χ β) : (x >>= f).outcome = (f a).outcome := by
  simp [bind_def, Exec.bind, h]

/-- A first part that aborts decides for both. -/
theorem bind_outcome_of_aborted {x : Exec ε χ α} (h : x.outcome = .aborted) (f : α → Exec ε χ β) :
    (x >>= f).outcome = .aborted := by
  simp [bind_def, Exec.bind, h]

/-- A call that does not return is the last thing that happens. -/
theorem bind_events_of_not_returned {x : Exec ε χ α} {f : α → Exec ε χ β}
    (h : ∀ a, x.outcome ≠ .returned a) : (x >>= f).events = x.events := by
  obtain ⟨events, outcome⟩ := x
  cases outcome with
  | returned a => exact absurd rfl (h a)
  | threw | aborted | undefined => rfl

/-- A call followed by one that always returns nothing ends as the call itself does. -/
theorem bind_outcome_of_all_return {x : Exec ε χ Unit} {f : Unit → Exec ε χ Unit}
    (h : ∀ a, (f a).outcome = .returned ()) : (x >>= f).outcome = x.outcome := by
  obtain ⟨events, outcome⟩ := x
  cases outcome with
  | returned a => exact h a
  | threw | aborted | undefined => rfl

/-- What comes after a call adds no event of a kind it does not emit, however the call ends. -/
theorem filter_bind_events {p : ε → Bool} (x : Exec ε χ α) {f : α → Exec ε χ β}
    (hf : ∀ a, (f a).events.filter p = []) : (x >>= f).events.filter p = x.events.filter p := by
  obtain ⟨events, outcome⟩ := x
  cases outcome with
  | returned a =>
    change (events ++ (f a).events).filter p = events.filter p
    rw [List.filter_append, hf a, List.append_nil]
  | threw | aborted | undefined => rfl

/-- Where a call that returns shows nothing, what comes after it shows what the whole does. -/
theorem filterMap_bind_of_returned {γ : Type} {g : ε → Option γ} {x : Exec ε χ α} {a : α} {f : α → Exec ε χ β}
    (hx : x.outcome = .returned a) (hnone : x.events.filterMap g = []) :
    (x >>= f).events.filterMap g = (f a).events.filterMap g := by
  rw [bind_events_of_returned hx, List.filterMap_append, hnone, List.nil_append]

/-- Every event of the call satisfies `P`. -/
def Emits (P : ε → Prop) (x : Exec ε χ α) : Prop := ∀ e ∈ x.events, P e

/-- A sequence emits what both parts may emit, the second only if it is reached. -/
theorem Emits.bind {P : ε → Prop} {x : Exec ε χ α} {f : α → Exec ε χ β} (hx : x.Emits P)
    (hf : ∀ a, x.outcome = .returned a → (f a).Emits P) : (x >>= f).Emits P := by
  obtain ⟨events, outcome⟩ := x
  cases outcome with
  | returned a =>
    intro e he
    rcases List.mem_append.mp he with he | he
    · exact hx e he
    · exact hf a rfl e he
  | threw | aborted | undefined => exact hx

theorem Emits.pure {P : ε → Prop} (a : α) : (pure a : Exec ε χ α).Emits P := by
  intro e he
  cases he

/-- An execution without events emits nothing that is not allowed. -/
theorem Emits.of_events_eq_nil {P : ε → Prop} {x : Exec ε χ α} (hx : x.events = []) : x.Emits P := by
  intro e he
  rw [hx] at he
  cases he

theorem Emits.raise {P : ε → Prop} (e : χ) : (raise e : Exec ε χ α).Emits P := by
  intro e' he
  cases he

theorem Emits.emit {P : ε → Prop} {e : ε} (he : P e) : (emit e : Exec ε χ Unit).Emits P := by
  intro e' hmem
  rwa [List.mem_singleton.mp hmem]

/-- Catching an exception takes none of the events back. -/
theorem attempt_events (x : Exec ε χ α) : (attempt x).events = x.events := by
  obtain ⟨events, outcome⟩ := x
  cases outcome <;> rfl

/-- A `try` block emits what its body does. -/
theorem Emits.attempt {P : ε → Prop} {x : Exec ε χ α} (hx : x.Emits P) : (attempt x).Emits P := by
  rwa [Emits, attempt_events]

/-- A call of another layer emits what its events are called here. -/
theorem Emits.within {ε' χ' : Type} {P : ε' → Prop} {x : Exec ε χ α} {name : ε → ε'}
    {handle : χ → Exec ε' χ' α} (hname : ∀ e, P (name e)) (hhandle : ∀ e, (handle e).Emits P) :
    (x.within name handle).Emits P := by
  have hmap : ∀ e ∈ x.events.map name, P e := by
    intro e he
    obtain ⟨e', -, rfl⟩ := List.mem_map.mp he
    exact hname e'
  obtain ⟨events, outcome⟩ := x
  cases outcome with
  | threw e =>
    intro e' he'
    exact (List.mem_append.mp he').elim (hmap e') (hhandle e e')
  | returned | aborted | undefined => exact hmap

/-- What has happened in the first part of a sequence has happened in all of it. -/
theorem mem_bind_events {x : Exec ε χ α} {e : ε} (f : α → Exec ε χ β) (he : e ∈ x.events) :
    e ∈ (x >>= f).events := by
  obtain ⟨events, outcome⟩ := x
  cases outcome with
  | returned a => exact List.mem_append_left _ he
  | threw | aborted | undefined => exact he

/-- The call returns, `view` shows `out` of its events, and every event satisfies `P`. -/
structure Produces (view : ε → List β) (P : ε → Prop) (x : Exec ε χ Unit) (out : List β) : Prop where
  returned : x.outcome = .returned ()
  view_eq : x.events.flatMap view = out
  emits : x.Emits P

section
variable {view : ε → List β} {P : ε → Prop} {x y : Exec ε χ Unit} {out out' : List β}

/-- Doing nothing produces nothing. -/
theorem Produces.nil : Produces view P (pure () : Exec ε χ Unit) [] := ⟨rfl, rfl, .pure ()⟩

/-- One event produces what is seen of it. -/
theorem Produces.emit {e : ε} (he : P e) : Produces view P (emit e : Exec ε χ Unit) (view e) :=
  ⟨rfl, List.append_nil (view e), .emit he⟩

/-- One call after the other produces one output after the other. -/
theorem Produces.seq (hx : Produces view P x out) (hy : Produces view P y out') :
    Produces view P (x >>= fun _ => y) (out ++ out') where
  returned := (bind_outcome_of_returned hx.returned _).trans hy.returned
  view_eq := by
    rw [bind_events_of_returned hx.returned, List.flatMap_append]
    rw [hx.view_eq, hy.view_eq]
  emits := hx.emits.bind fun _ _ => hy.emits

/-- An event that shows nothing, before a call. -/
theorem Produces.after {e : ε} (he : P e) (hview : view e = []) (hx : Produces view P x out) :
    Produces view P (Exec.emit e >>= fun _ => x) out := by
  have hseq := (Produces.emit he).seq hx
  rwa [hview, List.nil_append] at hseq

/-- A loop over a list: the outputs of its turns in order. -/
theorem Produces.forM {as : List α} {body : α → Exec ε χ Unit} {outOf : α → List β}
    (h : ∀ a ∈ as, Produces view P (body a) (outOf a)) :
    Produces view P (as.forM body) (as.flatMap outOf) := by
  induction as with
  | nil => exact .nil
  | cons a as ih =>
    apply Produces.seq (h a (List.mem_cons_self ..))
    exact ih fun b hb => h b (List.mem_cons_of_mem a hb)

end

/-- The call comes back, or stops in a failed assertion. -/
def ReturnsOrAborts (x : Exec ε χ α) : Prop := x.outcome = .aborted ∨ ∃ a, x.outcome = .returned a

/-- An execution that returns needs no more to be said. -/
theorem ReturnsOrAborts.of_returned {x : Exec ε χ α} {a : α} (h : x.outcome = .returned a) :
    x.ReturnsOrAborts := .inr ⟨a, h⟩

/-- If no part throws and none is undefined, neither is their sequence. -/
theorem ReturnsOrAborts.bind {x : Exec ε χ α} {f : α → Exec ε χ β} (hx : x.ReturnsOrAborts)
    (hf : ∀ a, (f a).ReturnsOrAborts) : (x >>= f).ReturnsOrAborts := by
  rcases hx with hx | ⟨a, ha⟩
  · exact .inl (bind_outcome_of_aborted hx f)
  · rcases hf a with haborted | ⟨b, hb⟩
    · exact .inl ((bind_outcome_of_returned ha f).trans haborted)
    · exact .inr ⟨b, (bind_outcome_of_returned ha f).trans hb⟩

end Exec

end exec
