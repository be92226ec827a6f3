import Mathlib.Logic.Relation

/- Systems that take one step after another, over any type of states. -/
namespace transition

open Relation

section
variable {σ : Type} {step : σ → σ → Prop}

/-- What holds at the start and is kept by every step holds in every state reached. -/
theorem invariant_of_step {I : σ → Prop} (hstep : ∀ s t, I s → step s t → I t) {s t : σ} (hs : I s)
    (hreach : ReflTransGen step s t) : I t := by
  induction hreach with
  | refl => exact hs
  | tail _ hlast ih => exact hstep _ _ ih hlast

/-- A system each of whose steps another can follow: it can follow all its runs. -/
theorem follows_of_step {τ : Type} {step' : τ → τ → Prop} {R : σ → τ → Prop}
    (hstep : ∀ s s' t, R s t → step s s' → ∃ t', ReflTransGen step' t t' ∧ R s' t') {s s' : σ} {t : τ}
    (hst : R s t)
    (hreach : ReflTransGen step s s') : ∃ t', ReflTransGen step' t t' ∧ R s' t' := by
  induction hreach with
  | refl => exact ⟨t, .refl, hst⟩
  | tail _ hlast ih =>
    obtain ⟨t', ht', hst'⟩ := ih
    obtain ⟨t'', ht'', hst''⟩ := hstep _ _ _ hst' hlast
    exact ⟨t'', ht'.trans ht'', hst''⟩

/-- No step can be taken. -/
def Stuck (step : σ → σ → Prop) (s : σ) : Prop := ∀ t, ¬ step s t

/-- A measure that every step lowers: some run goes on until no step can be taken. -/
theorem exists_stuck {μ : σ → Nat} (hμ : ∀ s t, step s t → μ t < μ s) (s : σ) :
    ∃ t, ReflTransGen step s t ∧ Stuck step t := by
  induction hn : μ s using Nat.strongRecOn generalizing s with
  | ind n ih =>
    by_cases hstuck : Stuck step s
    · exact ⟨s, .refl, hstuck⟩
    · obtain ⟨t, hst⟩ : ∃ t, step s t := by simpa [Stuck] using hstuck
      have hlt : μ t < n := by
        rw [← hn]
        exact hμ s t hst
      obtain ⟨u, htu, hu⟩ := ih (μ t) hlt t rfl
      exact ⟨u, .head hst htu, hu⟩

/-- A system that only stops in states that satisfy `P` gets to one of them. -/
theorem exists_reaches {μ : σ → Nat} (hμ : ∀ s t, step s t → μ t < μ s) {P : σ → Prop} {s : σ}
    (hstuck : ∀ t, ReflTransGen step s t → Stuck step t → P t) :
    ∃ t, ReflTransGen step s t ∧ P t := by
  obtain ⟨t, hreach, ht⟩ := exists_stuck hμ s
  exact ⟨t, hreach, hstuck t hreach ht⟩

/-- Every run from a state comes to an end, and only where `P` holds. -/
inductive RunsTo (step : σ → σ → Prop) (P : σ → Prop) : σ → Prop where
  | intro {s : σ} (hnext : ∀ t, step s t → RunsTo step P t) (hstop : Stuck step s → P s) : RunsTo step P s

/-- What all runs of a state come to, the runs of its successors do. -/
theorem RunsTo.of_reaches {P : σ → Prop} {s t : σ} (h : RunsTo step P s) (hreach : ReflTransGen step s t) :
    RunsTo step P t := by
  apply invariant_of_step (fun s t hs hst => ?_) h hreach
  obtain ⟨hnext, -⟩ := hs
  exact hnext t hst

/-- A state that runs to `P` and from which nothing goes on is in `P` already. -/
theorem RunsTo.of_stuck {P : σ → Prop} {s : σ} (h : RunsTo step P s) (hstuck : Stuck step s) : P s := by
  obtain ⟨-, hstop⟩ := h
  exact hstop hstuck

/-- What is known of every end may be weakened. -/
theorem RunsTo.mono {P Q : σ → Prop} {s : σ} (h : RunsTo step P s) (hPQ : ∀ t, P t → Q t) :
    RunsTo step Q s := by
  induction h with
  | intro _ hstop ih => exact .intro ih fun hstuck => hPQ _ (hstop hstuck)

/-- A state that takes no step is all there is of its run. -/
theorem runsTo_of_stuck {P : σ → Prop} {s : σ} (hstuck : Stuck step s) (hP : P s) : RunsTo step P s :=
  .intro (fun t hst => absurd hst (hstuck t)) fun _ => hP

/-- With a measure that every step lowers, runs come to where `P` holds exactly when
    every state that is reached and takes no step is such. -/
theorem runsTo_iff {μ : σ → Nat} (hμ : ∀ s t, step s t → μ t < μ s) {P : σ → Prop} {s : σ} :
    RunsTo step P s ↔ ∀ t, ReflTransGen step s t → Stuck step t → P t := by
  constructor
  · exact fun h t hreach => (h.of_reaches hreach).of_stuck
  · intro h
    induction hn : μ s using Nat.strongRecOn generalizing s with
    | ind n ih =>
      refine .intro (fun t hst => ?_) (h s .refl)
      have hlt : μ t < n := by
        rw [← hn]
        exact hμ s t hst
      exact ih (μ t) hlt (fun u hreach => h u (.head hst hreach)) rfl

end

end transition
