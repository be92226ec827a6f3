import Taraxacum.Push.Octets

open exec

/- What holds after every call of a push parser, whether it succeeds or not. -/
namespace push

/-- The call comes back, and leaves a state and data that satisfy `J`. -/
def Written.Holds {κ χ δ : Type} (J : κ → δ → Prop) : Written κ χ δ → Prop
  | .returned c data _ _ => J c data
  | .aborted | .undefined => False

/-- The actions come back, and leave data that satisfies `P`. -/
def Progress.Holds {α χ δ : Type} (P : δ → Prop) : Progress α χ δ → Prop
  | .on cur | .stopped _ cur => P cur.data
  | .aborted | .undefined => False

/-- A callback comes back, and what it leaves satisfies `P`. -/
def Leaves {χ δ : Type} (P : δ → Prop) : Outcome χ δ → Prop
  | .returned data => P data
  | .threw _ => True
  | .aborted | .undefined => False

/-- What `J` says where a turn leads to. If the loop goes on, what has been gathered counts with the
    octet the turn ends at, so it is not nothing. -/
def Turned {κ α χ δ : Type} (J : κ → List α → δ → Prop) (dead : κ) (o : Outcome (χ × κ) (κ × Bool)) :
    Progress α χ δ → Prop
  | .on cur =>
    match o with
    | .returned (c, true) => J c [] cur.data
    | .returned (c, false) => cur.advance.piece ≠ [] ∧ J c cur.advance.piece cur.data
    | .threw (_, c) => J c [] cur.data
    | .aborted | .undefined => False
  | .stopped _ cur => J dead [] cur.data
  | .aborted | .undefined => False

section
variable {κ α τ γ χ δ : Type} {M : Machine κ α τ γ χ} {S : Sink α τ γ χ δ} {P : δ → Prop}

/-- A callback whose error is looked at leaves the sink as it has to be, or ends the write. -/
theorem checked_holds {cur : Cursor α χ δ} {o : Outcome χ δ} (hcur : P cur.data) (ho : Leaves P o) :
    (cur.checked o).Holds P := by
  cases o with
  | returned data =>
    rw [Cursor.checked]
    cases cur.ec <;> exact ho
  | threw e => exact hcur
  | aborted | undefined => exact ho

theorem unchecked_holds {cur : Cursor α χ δ} {o : Outcome χ δ} (hcur : P cur.data) (ho : Leaves P o) :
    (cur.unchecked o).Holds P := by
  cases o with
  | returned data => exact ho
  | threw e => exact hcur
  | aborted | undefined => exact ho

/-- Actions whose callbacks keep `P` keep it, one after the other. -/
theorem performAll_holds {acts : List (Action τ γ)} {A : Action τ γ → Prop} (hacts : ∀ act ∈ acts, A act)
    (htake : ∀ t as data, A (.piece t) → P data → Leaves P (S.take t as data))
    (hcall : ∀ g data, A (.call g) ∨ A (.callUnchecked g) → P data → Leaves P (S.call g data))
    {cur : Cursor α χ δ} (hcur : P cur.data) : (performAll S acts cur).Holds P := by
  induction acts generalizing cur with
  | nil => exact hcur
  | cons act acts ih =>
    obtain ⟨hact, hacts⟩ := List.forall_mem_cons.mp hacts
    have hfirst : (perform S cur act).Holds P := by
      cases act with
      | advance | begin => exact hcur
      | piece t =>
        rw [perform]
        split
        · exact hcur
        · exact checked_holds hcur (htake t _ _ hact hcur)
      | call g => exact checked_holds hcur (hcall g _ (.inl hact) hcur)
      | callUnchecked g => exact unchecked_holds hcur (hcall g _ (.inr hact) hcur)
    rw [performAll]
    cases hp : perform S cur act with
    | on next =>
      rw [hp] at hfirst
      exact ih hacts hfirst
    | stopped | aborted | undefined =>
      rw [hp] at hfirst
      exact hfirst

/-- The last piece of a buffer is handed over. -/
theorem finish_holds {J : κ → δ → Prop} {c : κ} {cur : Cursor α χ δ} (hnone : M.gathers c = none → J c cur.data)
    (htake : ∀ t, M.gathers c = some t → Leaves (J c) (S.take t cur.piece cur.data))
    (hdead : ∀ data, J c data → J (M.dead c) data) (hfailed : J (M.dead c) cur.data) :
    (finish M S c cur).Holds J := by
  rw [finish]
  cases hg : M.gathers c with
  | none => exact hnone hg
  | some t =>
    have h := htake t hg
    dsimp only
    cases ho : S.take t cur.piece cur.data with
    | returned data =>
      rw [ho] at h
      rw [Cursor.checked]
      cases cur.ec with
      | none => exact h
      | some e => exact hdead data h
    | threw e => exact hfailed
    | aborted | undefined =>
      rw [ho] at h
      exact h

/-- A loop keeps what each of its turns keeps. -/
theorem loop_holds {J : κ → List α → δ → Prop}
    (hturn : ∀ c a rest (cur : Cursor α χ δ), J c cur.piece cur.data → cur.rest = a :: rest →
      Turned J (M.dead c) (M.turn c (a :: rest).length a).outcome
        (performAll S (M.turn c (a :: rest).length a).events cur))
    (hfinish : ∀ c (cur : Cursor α χ δ), J c cur.piece cur.data → cur.piece ≠ [] →
      (finish M S c cur).Holds fun c data => J c [] data)
    {fuel : Nat} {c : κ} {cur : Cursor α χ δ} (hJ : J c cur.piece cur.data)
    (hpiece : cur.rest = [] ∨ fuel = 0 → cur.piece ≠ []) :
    (loop M S fuel c cur).Holds fun c data => J c [] data := by
  induction fuel generalizing c cur with
  | zero => exact hfinish c cur hJ (hpiece (.inr rfl))
  | succ fuel ih =>
    rw [loop]
    cases hrest : cur.rest with
    | nil => exact hfinish c cur hJ (hpiece (.inl hrest))
    | cons a rest =>
      have h := hturn c a rest cur hJ hrest
      dsimp only
      cases hp : performAll S (M.turn c (a :: rest).length a).events cur with
      | stopped | aborted | undefined =>
        rw [hp] at h
        exact h
      | on next =>
        rw [hp] at h
        cases ho : (M.turn c (a :: rest).length a).outcome with
        | returned r =>
          obtain ⟨c', left⟩ := r
          rw [ho] at h
          cases left with
          | true => exact h
          | false =>
            obtain ⟨hnext, hJ⟩ := h
            exact ih hJ fun _ => hnext
        | threw | aborted | undefined =>
          rw [ho] at h
          exact h

end

section
variable {κ α τ γ χ δ : Type} [DecidableEq τ] {M : Machine κ α τ γ χ} {S : Sink α τ γ χ δ} {I : κ → Prop}

/-- A turn with several octets left ends as some turn does with one left, after octets it has passed. -/
theorem Machine.Lawful.many (hM : M.Lawful I) (n : Nat) {c c' : κ} {a : α} {left : Bool} (hc : I c)
    (h : (M.turn c (n + 1) a).outcome = .returned (c', left)) :
    ∃ d, I d ∧ (M.turn d 1 a).outcome = .returned (c', left) ∧
      ∃ k ≤ n, push.advances (M.turn c (n + 1) a).events = k + push.advances (M.turn d 1 a).events := by
  induction n generalizing c with
  | zero => exact ⟨c, hc, h, 0, Nat.le_refl 0, (Nat.zero_add _).symm⟩
  | succ n ih =>
    rcases hM.bulk c n a a hc with hsame | ⟨acts, c₁, hfirst, hbulk⟩
    · rw [hsame] at h ⊢
      exact ⟨c, hc, h, 0, Nat.zero_le _, (Nat.zero_add _).symm⟩
    · rw [hbulk] at h ⊢
      have hone : (M.turn c 1 a).outcome = .returned (c₁, false) := by rw [hfirst]
      obtain ⟨d, hd, ho, k, hk, hadvances⟩ := ih (hM.kept c a c₁ false hc hone) h
      have hacts : push.advances acts = 0 := by
        have hsingle := hM.advances c a c₁ false hc hone
        rwa [hfirst] at hsingle
      refine ⟨d, hd, ho, k + 1, Nat.succ_le_succ hk, ?_⟩
      have hsum : push.advances (acts ++ .advance :: (M.turn c₁ (n + 1) a).events) =
          push.advances acts + (push.advances (M.turn c₁ (n + 1) a).events + 1) := by
        rw [advances_append]
        rfl
      dsimp only
      rw [hsum, hacts, hadvances]
      omega

/-- A turn that does not end the loop leaves the octet it ends at in the buffer. -/
theorem Machine.Lawful.advance_piece (hM : M.Lawful I) {c c' : κ} {a : α} {rest : List α} (hc : I c)
    (h : (M.turn c (a :: rest).length a).outcome = .returned (c', false)) {cur next : Cursor α χ δ}
    (hrest : cur.rest = a :: rest)
    (hp : performAll S (M.turn c (a :: rest).length a).events cur = .on next) : next.advance.piece ≠ [] := by
  obtain ⟨d, hd, ho, k, hk, hadvances⟩ := hM.many rest.length hc h
  have hone := hM.advances d a c' false hd ho
  rw [if_neg Bool.false_ne_true] at hone
  rw [hone] at hadvances
  have hnext : next.rest = (a :: rest).drop k := by
    rw [(performAll_position hp).1, hrest, List.length_cons, hadvances, Nat.add_zero]
  have hlength : 0 < next.rest.length := by
    rw [hnext, List.length_drop, List.length_cons]
    omega
  intro hnil
  obtain ⟨-, htake⟩ := List.append_eq_nil_iff.mp hnil
  rw [List.take_eq_nil_iff] at htake
  rcases htake with h | h
  · cases h
  · rw [h] at hlength
    cases hlength

end

end push
