import Mathlib.Data.List.Basic

/- Programs that change a state, may have to wait, and may go wrong. -/
namespace program

/-- How a program ends: with a value and a state, waiting for the world for ever, or in what the
    language or the system leaves undefined. -/
inductive Result (σ α : Type) where
  | done (a : α) (s : σ)
  | waiting
  | fault
  deriving DecidableEq

def Program (σ α : Type) := σ → Result σ α

namespace Program

variable {σ α β γ : Type}

protected def bind (x : Program σ α) (f : α → Program σ β) : Program σ β := fun s =>
  match x s with
  | .done a t => f a t
  | .waiting => .waiting
  | .fault => .fault

instance : Monad (Program σ) where
  pure a := fun s => .done a s
  bind := Program.bind

def state : Program σ σ := fun s => .done s s
def change (f : σ → σ) : Program σ Unit := fun s => .done () (f s)
def wait : Program σ α := fun _ => .waiting
def fault : Program σ α := fun _ => .fault

/-- What has no result goes wrong. -/
def ofOption : Option α → Program σ α
  | some a => pure a
  | none => fault

def when (c : Bool) (x : Program σ Unit) : Program σ Unit := if c then x else pure ()

/-- A loop of at most `n` turns. One that has not ended by then goes wrong. -/
def iterate (body : β → Program σ (β ⊕ γ)) : Nat → β → Program σ γ
  | 0, _ => fault
  | n + 1, b => body b >>= fun
    | .inl b => iterate body n b
    | .inr c => pure c

/-- Started in `s` the program does not go wrong, and `Q` holds of what it ends with, if it ends. -/
def wp (x : Program σ α) (Q : α → σ → Prop) (s : σ) : Prop :=
  match x s with
  | .done a t => Q a t
  | .waiting => True
  | .fault => False

section
variable {Q R : α → σ → Prop} {s : σ}

/-- A program that returns at once leaves the state as it is. -/
@[simp] theorem wp_pure (a : α) : wp (pure a : Program σ α) Q s ↔ Q a s := Iff.rfl
@[simp] theorem wp_state {Q : σ → σ → Prop} : wp state Q s ↔ Q s s := Iff.rfl
@[simp] theorem wp_wait : wp (wait : Program σ α) Q s := trivial
@[simp] theorem wp_fault : ¬wp (fault : Program σ α) Q s := id

/-- The rule of sequence: what the first program leaves has to be a precondition of the second. -/
@[simp] theorem wp_bind (x : Program σ α) (f : α → Program σ β) {Q : β → σ → Prop} :
    wp (x >>= f) Q s ↔ wp x (fun a t => wp (f a) Q t) s := by
  change (match Program.bind x f s with | .done a t => Q a t | .waiting => True | .fault => False) ↔ _
  unfold wp Program.bind
  cases x s <;> rfl

/-- A function applied to the result changes the postcondition alone. -/
@[simp] theorem wp_map (f : α → β) (x : Program σ α) {Q : β → σ → Prop} :
    wp (f <$> x) Q s ↔ wp x (fun a t => Q (f a) t) s := wp_bind x fun a => pure (f a)

/-- The rule of consequence, for a result that both postconditions see. -/
theorem wp_mono {x : Program σ α} (hQ : ∀ a t, Q a t → R a t) (hx : wp x Q s) : wp x R s := by
  unfold wp at hx ⊢
  cases hrun : x s with
  | done a t =>
    rw [hrun] at hx
    exact hQ a t hx
  | waiting => trivial
  | fault =>
    rw [hrun] at hx
    exact hx

/-- Each branch is proved under its own condition. -/
theorem wp_ite {c : Prop} [Decidable c] {x y : Program σ α} (hx : c → wp x Q s) (hy : ¬c → wp y Q s) :
    wp (if c then x else y) Q s := by
  split
  · exact hx ‹_›
  · exact hy ‹_›

/-- A step that is left out has to have its postcondition already. -/
theorem wp_when {c : Bool} {x : Program σ Unit} {Q : Unit → σ → Prop} (hx : c = true → wp x Q s)
    (hnot : c = false → Q () s) : wp (when c x) Q s :=
  wp_ite hx fun hc => hnot (Bool.eq_false_iff.mpr hc)

/-- A value that is there is taken without a fault. -/
theorem wp_ofOption {o : Option α} {a : α} (ho : o = some a) (hQ : Q a s) : wp (ofOption o) Q s := by
  subst ho
  exact hQ

/-- Taking a value that is not there is a fault, so a precondition says that it is there. -/
theorem wp_ofOption_iff {o : Option α} : wp (ofOption o) Q s ↔ ∃ a, o = some a ∧ Q a s := by
  cases o with
  | none => exact ⟨fun h => absurd h wp_fault, fun ⟨_, h, _⟩ => by cases h⟩
  | some a => exact ⟨fun h => ⟨a, rfl, h⟩, fun ⟨_, h, hQ⟩ => Option.some.inj h ▸ hQ⟩

/-- A program does not go wrong exactly if it has the weakest postcondition. Waiting for ever is not
    wrong. -/
theorem ne_fault_iff {x : Program σ α} : x s ≠ .fault ↔ wp x (fun _ _ => True) s := by
  unfold wp
  cases x s <;> simp

/-- A loop keeps what each of its turns keeps, and ends if each of them lowers a measure. -/
theorem wp_iterate {body : β → Program σ (β ⊕ γ)} {I : β → σ → Prop} {μ : β → σ → Nat} {Q : γ → σ → Prop}
    (hbody : ∀ b s, I b s → wp (body b)
      (fun r t => r.elim (fun b' => I b' t ∧ μ b' t < μ b s) fun c => Q c t) s)
    {n : Nat} {b : β} {s : σ} (hb : I b s) (hn : μ b s < n) : wp (iterate body n b) Q s := by
  induction n generalizing b s with
  | zero => exact absurd hn (Nat.not_lt_zero _)
  | succ n ih =>
    rw [iterate, wp_bind]
    refine wp_mono ?_ (hbody b s hb)
    rintro (b' | c) t h
    · obtain ⟨hb', hless⟩ := h
      exact ih hb' (by omega)
    · exact h

end

/-- Going wrong does not depend on what is done with the result. -/
theorem map_eq_fault_iff {x : Program σ α} {f : α → β} {s : σ} : (f <$> x) s = .fault ↔ x s = .fault := by
  rw [← not_iff_not, ← ne_eq, ← ne_eq, ne_fault_iff, ne_fault_iff, wp_map]

/-- Whatever is proved of a program by these rules includes that it does not go wrong. -/
theorem not_fault_of_wp {x : Program σ α} {Q : α → σ → Prop} {s : σ} (hx : wp x Q s) : x s ≠ .fault := by
  intro hfault
  rw [wp, hfault] at hx
  exact hx

/-- A program that ends leaves what was proved of it. -/
theorem of_wp_of_done {x : Program σ α} {Q : α → σ → Prop} {s t : σ} {a : α} (hx : wp x Q s)
    (hdone : x s = .done a t) : Q a t := by
  rwa [wp, hdone] at hx

end Program

open Program

/-- Where the operations of an object lead that are called one after the other, each in a state it
    is ready in, and what they have returned. -/
inductive Reaches {σ ο ρ : Type} (perform : ο → Program σ ρ) (Ready : ο → σ → Prop) (start : σ) :
    List (ο × ρ) → σ → Prop where
  | start : Reaches perform Ready start [] start
  | step {calls : List (ο × ρ)} {s t : σ} {op : ο} {r : ρ} (hreach : Reaches perform Ready start calls s)
      (hready : Ready op s) (hdone : perform op s = .done r t) :
      Reaches perform Ready start (calls ++ [(op, r)]) t

section
variable {σ ο ρ : Type} {perform : ο → Program σ ρ} {Ready : ο → σ → Prop} {start : σ}

/-- What holds at the start and is kept by every operation holds wherever they lead. -/
theorem Reaches.invariant {I : List (ο × ρ) → σ → Prop} (hstart : I [] start)
    (hstep : ∀ calls s op, I calls s → Ready op s → wp (perform op) (fun r t => I (calls ++ [(op, r)]) t) s)
    {calls : List (ο × ρ)} {s : σ} (hreach : Reaches perform Ready start calls s) : I calls s := by
  induction hreach with
  | start => exact hstart
  | step hreach hready hdone ih =>
    have hkept := of_wp_of_done (hstep _ _ _ ih hready) hdone
    exact hkept

/-- The operations `ops` one after the other, what they return, and where they lead if they all end. -/
def runs (perform : ο → Program σ ρ) : List ο → σ → Option (List ρ × σ)
  | [], s => some ([], s)
  | op :: ops, s =>
    match perform op s with
    | .done r t => (runs perform ops t).map fun (rs, u) => (r :: rs, u)
    | .waiting | .fault => none

/-- A computed run, taken apart at its first operation. -/
theorem runs_cons {s u : σ} {op : ο} {ops : List ο} {rs : List ρ}
    (hruns : runs perform (op :: ops) s = some (rs, u)) :
    ∃ r t rs', rs = r :: rs' ∧ perform op s = .done r t ∧ runs perform ops t = some (rs', u) := by
  rw [runs] at hruns
  cases hdone : perform op s with
  | done r t =>
    rw [hdone] at hruns
    obtain ⟨⟨rs', u'⟩, hrest, heq⟩ := Option.map_eq_some_iff.mp hruns
    obtain ⟨rfl, rfl⟩ := Prod.mk.inj heq
    exact ⟨r, t, rs', rfl, rfl, hrest⟩
  | waiting =>
    rw [hdone] at hruns
    cases hruns
  | fault =>
    rw [hdone] at hruns
    cases hruns

/-- A computed run is a run of the relation, if each of its operations may be called wherever it is
    called. -/
theorem Reaches.of_runs {calls : List (ο × ρ)} {s t : σ} {ops : List ο} {rs : List ρ}
    (hreach : Reaches perform Ready start calls s) (hready : ∀ op ∈ ops, ∀ s, Ready op s)
    (hruns : runs perform ops s = some (rs, t)) : Reaches perform Ready start (calls ++ ops.zip rs) t := by
  induction ops generalizing calls s rs with
  | nil =>
    obtain ⟨rfl, rfl⟩ := Prod.mk.inj (Option.some.inj hruns)
    rw [List.zip_nil_left, List.append_nil]
    exact hreach
  | cons op ops ih =>
    obtain ⟨r, u, rs', rfl, hdone, hrest⟩ := runs_cons hruns
    have hall := ih (hreach.step (hready op List.mem_cons_self s) hdone)
      (fun op' hop' => hready op' (List.mem_cons_of_mem op hop')) hrest
    rwa [List.append_assoc] at hall

/-- Only the first operation may have to wait for its state. -/
theorem Reaches.of_runs_cons {t : σ} {op : ο} {ops : List ο} {rs : List ρ} (hfirst : Ready op start)
    (hready : ∀ op ∈ ops, ∀ s, Ready op s) (hruns : runs perform (op :: ops) start = some (rs, t)) :
    Reaches perform Ready start ((op :: ops).zip rs) t := by
  obtain ⟨r, u, rs', rfl, hdone, hrest⟩ := runs_cons hruns
  exact Reaches.of_runs (.step .start hfirst hdone) hready hrest

end

end program
