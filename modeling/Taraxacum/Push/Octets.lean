import Taraxacum.Push

open exec

/- A push parser read as if every octet were handed over at once. Pieces, buffers and the octets
   that one turn skips do not show in what a call that succeeds does. -/
namespace push

def value? {χ α : Type} : Outcome χ α → Option α
  | .returned a => some a
  | _ => none

/-- How many octets the actions pass. -/
def advances {τ γ : Type} : List (Action τ γ) → Nat
  | [] => 0
  | .advance :: acts => advances acts + 1
  | _ :: acts => advances acts

/-- Whom a machine gathers for after its actions, if it never hands a piece to somebody else,
    and begins a piece and makes other callbacks only while it gathers for nobody. -/
def flow {τ γ : Type} [DecidableEq τ] : Option τ → List (Action τ γ) → Option (Option τ)
  | cb, [] => some cb
  | cb, .advance :: acts => flow cb acts
  | none, .begin t :: acts => flow (some t) acts
  | some t, .piece t' :: acts => if t' = t then flow none acts else none
  | none, .call _ :: acts => flow none acts
  | none, .callUnchecked _ :: acts => flow none acts
  | _, _ => none

/-- Where reading octet by octet has got to: how many octets have been read, and whether the loop
    ended with the last of them. -/
structure Reached (κ δ : Type) where
  control : κ
  data : δ
  used : Nat
  left : Bool

def Reached.after {κ δ : Type} (r : Reached κ δ) (used : Nat) : Reached κ δ := { r with used := used + r.used }

section
variable {κ α τ γ χ δ : Type} (M : Machine κ α τ γ χ) (S : Sink α τ γ χ δ)

/-- What `t` makes of the octets handed to it, of which there may be none. -/
def hand (t : τ) (as : List α) (data : δ) : Option δ :=
  if as.isEmpty then some data else value? (S.take t as data)

def gather : Option τ → List α → δ → Option δ
  | none, _, data => some data
  | some t, as, data => hand S t as data

/-- The actions of one turn with every octet handed over as it is passed. -/
def eager : List (Action τ γ) → Option τ → List α → δ → Option δ
  | [], _, _, data => some data
  | .advance :: acts, cb, as, data => (gather S cb (as.take 1) data).bind (eager acts cb (as.drop 1))
  | .begin t :: acts, _, as, data => eager acts (some t) as data
  | .piece _ :: acts, _, as, data => eager acts none as data
  | .call callback :: acts, cb, as, data => (value? (S.call callback data)).bind (eager acts cb as)
  | .callUnchecked callback :: acts, cb, as, data => (value? (S.call callback data)).bind (eager acts cb as)

/-- One octet: the state it leads to, and whether the loop ends there. -/
def octet (c : κ) (a : α) (data : δ) : Option (κ × δ × Bool) :=
  match (M.turn c 1 a).outcome with
  | .returned (c', left) =>
    (eager S (M.turn c 1 a).events (M.gathers c) [a] data).bind fun data =>
      if left then some (c', data, true)
      else (gather S (M.gathers c') [a] data).map fun data => (c', data, false)
  | _ => none

/-- Octet after octet until they are used up or the loop ends. -/
def run : List α → κ → δ → Option (Reached κ δ)
  | [], c, data => some ⟨c, data, 0, false⟩
  | a :: as, c, data =>
    (octet M S c a data).bind fun (c, data, left) =>
      if left then some ⟨c, data, 1, true⟩ else (run as c data).map (·.after 1)

/-- A piece may be handed over in parts. -/
def Sink.Additive : Prop :=
  ∀ t as bs data, hand S t (as ++ bs) data = (hand S t as data).bind (hand S t bs)

end

/-- What holds of the turns from the states `I` describes. Of several octets left, either the first
    one is read as if it were alone, or the turn reads it alone and goes on with the next. -/
structure Machine.Lawful {κ α τ γ χ : Type} [DecidableEq τ] (M : Machine κ α τ γ χ) (I : κ → Prop) : Prop where
  kept : ∀ c a c' left, I c → (M.turn c 1 a).outcome = .returned (c', left) → I c'
  flow : ∀ c a c' left, I c → (M.turn c 1 a).outcome = .returned (c', left) →
    flow (M.gathers c) (M.turn c 1 a).events = some (M.gathers c')
  advances : ∀ c a c' left, I c → (M.turn c 1 a).outcome = .returned (c', left) →
    advances (M.turn c 1 a).events = if left then 1 else 0
  left : ∀ c a c', I c → (M.turn c 1 a).outcome = .returned (c', true) → M.gathers c' = none
  bulk : ∀ c n a a', I c → M.turn c (n + 2) a = M.turn c 1 a ∨
    ∃ acts c', M.turn c 1 a = ⟨acts, .returned (c', false)⟩ ∧
      M.turn c (n + 2) a = ⟨acts ++ .advance :: (M.turn c' (n + 1) a').events, (M.turn c' (n + 1) a').outcome⟩

section
variable {α τ γ χ δ : Type} {S : Sink α τ γ χ δ}

/-- The sink's state once what has been gathered is handed over, if there is no error. -/
def settled (S : Sink α τ γ χ δ) (cb : Option τ) (cur : Cursor α χ δ) : Option δ :=
  if cur.ec.isSome then none else gather S cb cur.piece cur.data

def Progress.settled (S : Sink α τ γ χ δ) (cb : Option τ) : Progress α χ δ → Option δ
  | .on cur => push.settled S cb cur
  | _ => none

@[simp] theorem gather_nil (cb : Option τ) (data : δ) : gather S cb [] data = some data := by
  cases cb <;> rfl

/-- Where the sink does not mind how a piece is cut, a piece may be given in two parts. -/
theorem gather_append (hS : S.Additive) (cb : Option τ) (as bs : List α) (data : δ) :
    gather S cb (as ++ bs) data = (gather S cb as data).bind (gather S cb bs) := by
  cases cb with
  | none => rfl
  | some t => exact hS t as bs data

/-- One octet further, the piece that is gathered is longer by that octet. -/
theorem settled_advance (hS : S.Additive) (cb : Option τ) (cur : Cursor α χ δ) :
    settled S cb cur.advance = (settled S cb cur).bind (gather S cb (cur.rest.take 1)) := by
  by_cases hec : cur.ec.isSome = true
  · simp [settled, Cursor.advance, hec]
  · simpa [settled, Cursor.advance, hec] using gather_append hS cb cur.piece (cur.rest.take 1) cur.data

/-- A callback whose error is looked at ends the write with it, unless there was an error already.
    -/
theorem settled_checked (cur : Cursor α χ δ) (o : Outcome χ δ) :
    (cur.checked o).settled S none = if cur.ec.isSome then none else value? o := by
  cases o with
  | returned data =>
    cases hec : cur.ec <;> simp [Cursor.checked, Progress.settled, settled, hec, value?, gather]
  | threw | aborted | undefined => simp [Cursor.checked, Progress.settled, value?]

/-- A callback whose error is not looked at leaves it for the end of the buffer. -/
theorem settled_unchecked (cur : Cursor α χ δ) (o : Outcome χ δ) :
    (cur.unchecked o).settled S none = if cur.ec.isSome then none else value? o := by
  cases o with
  | returned data => simp [Cursor.unchecked, Progress.settled, settled, value?, gather]
  | threw e => simp [Cursor.unchecked, Progress.settled, settled, value?]
  | aborted | undefined => simp [Cursor.unchecked, Progress.settled, value?]

/-- One action, on what has been gathered and on what counts as handed over. -/
theorem perform_settled [DecidableEq τ] (hS : S.Additive) {act : Action τ γ} {cb cb' : Option τ}
    (hflow : flow cb [act] = some cb') (cur : Cursor α χ δ) :
    (perform S cur act).settled S cb' = (settled S cb cur).bind (eager S [act] cb cur.rest) := by
  cases act with
  | advance =>
    obtain rfl : cb = cb' := by simpa [flow] using hflow
    simp [perform, Progress.settled, settled_advance hS, eager]
  | begin t =>
    cases cb with
    | none =>
      obtain rfl : some t = cb' := by simpa [flow] using hflow
      by_cases hec : cur.ec.isSome = true <;>
        simp [perform, Progress.settled, settled, hec, eager, gather, hand]
    | some t' => simp [flow] at hflow
  | piece t =>
    cases cb with
    | none => simp [flow] at hflow
    | some t' =>
      obtain ⟨rfl, rfl⟩ : t = t' ∧ none = cb' := by simpa [flow] using hflow
      by_cases hpiece : cur.piece.isEmpty = true
      · by_cases hec : cur.ec.isSome = true <;>
          simp [perform, hpiece, Progress.settled, settled, hec, eager, gather, hand]
      · simp [perform, hpiece, settled_checked, settled, eager, gather, hand]
  | call callback =>
    cases cb with
    | some t => simp [flow] at hflow
    | none =>
      obtain rfl : none = cb' := by simpa [flow] using hflow
      by_cases hec : cur.ec.isSome = true <;>
        simp [perform, settled_checked, settled, hec, eager, gather]
  | callUnchecked callback =>
    cases cb with
    | some t => simp [flow] at hflow
    | none =>
      obtain rfl : none = cb' := by simpa [flow] using hflow
      by_cases hec : cur.ec.isSome = true <;>
        simp [perform, settled_unchecked, settled, hec, eager, gather]

/-- The flow of pieces through a list of actions, taken apart at the first one. -/
theorem flow_cons [DecidableEq τ] {act : Action τ γ} {acts : List (Action τ γ)} {cb cb' : Option τ}
    (hflow : flow cb (act :: acts) = some cb') :
    ∃ mid, flow cb [act] = some mid ∧ flow mid acts = some cb' := by
  cases act with
  | advance => exact ⟨cb, rfl, hflow⟩
  | begin t =>
    cases cb with
    | none => exact ⟨some t, rfl, hflow⟩
    | some t' => simp [flow] at hflow
  | piece t =>
    cases cb with
    | none => simp [flow] at hflow
    | some t' =>
      by_cases ht : t = t'
      · exact ⟨none, by simp [flow, ht], by simpa [flow, ht] using hflow⟩
      · simp [flow, ht] at hflow
  | call | callUnchecked =>
    cases cb with
    | none => exact ⟨none, rfl, hflow⟩
    | some t' => simp [flow] at hflow

/-- What a list of actions does to the sink octet by octet, taken apart at the first one. -/
theorem eager_cons [DecidableEq τ] {act : Action τ γ} {cb mid : Option τ} (hflow : flow cb [act] = some mid)
    (acts : List (Action τ γ)) (as : List α) (data : δ) :
    eager S (act :: acts) cb as data =
      (eager S [act] cb as data).bind (eager S acts mid (as.drop (advances [act]))) := by
  cases act with
  | advance =>
    obtain rfl : cb = mid := by simpa [flow] using hflow
    simp only [eager, Option.bind_assoc, Option.bind_some, advances]
  | begin t | piece t | call | callUnchecked =>
    cases cb <;> simp [flow] at hflow
    all_goals simp [eager, advances, ← hflow]

/-- An action moves the cursor only by the octets it advances. -/
theorem perform_position {act : Action τ γ} {cur cur' : Cursor α χ δ} (h : perform S cur act = .on cur') :
    cur'.rest = cur.rest.drop (advances [act]) ∧ cur'.used = cur.used + advances [act] := by
  cases act with
  | advance =>
    obtain rfl : cur.advance = cur' := by simpa [perform] using h
    exact ⟨rfl, rfl⟩
  | begin t =>
    obtain rfl : { cur with piece := [] } = cur' := by simpa [perform] using h
    exact ⟨rfl, rfl⟩
  | piece t =>
    simp only [perform] at h
    split at h
    · cases h
      exact ⟨rfl, rfl⟩
    · cases ho : S.take t cur.piece cur.data <;> simp only [ho, Cursor.checked] at h
      · split at h <;> cases h
        exact ⟨rfl, rfl⟩
      all_goals cases h
  | call callback =>
    cases ho : S.call callback cur.data <;> simp only [perform, ho, Cursor.checked] at h
    · split at h <;> cases h
      exact ⟨rfl, rfl⟩
    all_goals cases h
  | callUnchecked callback =>
    cases ho : S.call callback cur.data <;> simp only [perform, ho, Cursor.unchecked] at h <;> cases h
    all_goals exact ⟨rfl, rfl⟩

theorem advances_cons (act : Action τ γ) (acts : List (Action τ γ)) :
    advances (act :: acts) = advances [act] + advances acts := by
  cases act <;> simp [advances, Nat.add_comm]

/-- The octets that actions advance add up. -/
theorem advances_append (acts acts' : List (Action τ γ)) :
    advances (acts ++ acts') = advances acts + advances acts' := by
  induction acts with
  | nil => exact (Nat.zero_add _).symm
  | cons act acts ih => rw [List.cons_append, advances_cons, ih, advances_cons act acts, Nat.add_assoc]

/-- Actions move the cursor by the octets they advance together. -/
theorem performAll_position {acts : List (Action τ γ)} {cur cur' : Cursor α χ δ}
    (h : performAll S acts cur = .on cur') :
    cur'.rest = cur.rest.drop (advances acts) ∧ cur'.used = cur.used + advances acts := by
  induction acts generalizing cur with
  | nil =>
    cases h
    exact ⟨rfl, rfl⟩
  | cons act acts ih =>
    cases hact : perform S cur act with
    | on mid =>
      simp only [performAll, hact, Progress.bind] at h
      obtain ⟨hrest, hused⟩ := perform_position hact
      obtain ⟨hrest', hused'⟩ := ih h
      constructor
      · rw [hrest', hrest, List.drop_drop, advances_cons act acts]
      · rw [hused', hused, advances_cons act acts, Nat.add_assoc]
    | stopped | aborted | undefined =>
      simp only [performAll, hact, Progress.bind] at h
      cases h

/-- The actions of a turn hand over only octets they pass. -/
theorem eager_take (acts : List (Action τ γ)) (cb : Option τ) (as : List α) (data : δ) :
    eager S acts cb as data = eager S acts cb (as.take (advances acts)) data := by
  induction acts generalizing cb as data with
  | nil => rfl
  | cons act acts ih =>
    cases act with
    | advance =>
      have hdrop : (as.take (advances acts + 1)).drop 1 = (as.drop 1).take (advances acts) := by
        rw [List.drop_take, Nat.add_sub_cancel]
      have htake : (as.take (advances acts + 1)).take 1 = as.take 1 := by simp [List.take_take]
      simp only [eager, advances, hdrop, htake]
      exact congrArg _ (funext fun data => ih cb (as.drop 1) data)
    | begin t => exact ih (some t) as data
    | piece t => exact ih none as data
    | call | callUnchecked => exact congrArg _ (funext fun data => ih cb as data)

/-- The actions of a turn, on what has been gathered and on what counts as handed over. -/
theorem performAll_settled [DecidableEq τ] (hS : S.Additive) {acts : List (Action τ γ)} {cb cb' : Option τ}
    (hflow : flow cb acts = some cb') (cur : Cursor α χ δ) :
    (performAll S acts cur).settled S cb' = (settled S cb cur).bind (eager S acts cb cur.rest) := by
  induction acts generalizing cb cur with
  | nil =>
    obtain rfl : cb = cb' := by simpa [flow] using hflow
    simp [performAll, Progress.settled, eager]
  | cons act acts ih =>
    obtain ⟨mid, hact, hacts⟩ := flow_cons hflow
    have hstep := perform_settled hS hact cur
    have heager : (settled S cb cur).bind (eager S (act :: acts) cb cur.rest) =
        ((settled S cb cur).bind (eager S [act] cb cur.rest)).bind
          (eager S acts mid (cur.rest.drop (advances [act]))) := by
      rw [Option.bind_assoc]
      exact congrArg _ (funext fun data => eager_cons hact acts cur.rest data)
    rw [heager, ← hstep, performAll]
    cases hp : perform S cur act with
    | on next =>
      rw [Progress.bind, ih hacts next, (perform_position hp).1]
      rfl
    | stopped | aborted | undefined => rfl

end

section
variable {κ α τ γ χ δ : Type} {M : Machine κ α τ γ χ} {S : Sink α τ γ χ δ}

/-- Two lists of actions are performed one after the other. -/
theorem performAll_append (acts acts' : List (Action τ γ)) (cur : Cursor α χ δ) :
    performAll S (acts ++ acts') cur = (performAll S acts cur).bind (performAll S acts') := by
  induction acts generalizing cur with
  | nil => rfl
  | cons act acts ih =>
    rw [List.cons_append, performAll, performAll]
    cases perform S cur act with
    | on next => exact ih next
    | stopped | aborted | undefined => rfl

/-- The buffer has ended; the piece, if there is one, is handed over. -/
theorem finish_success {c : κ} {cur : Cursor α χ δ} (hpiece : M.gathers c = none ∨ cur.piece ≠ []) :
    (finish M S c cur).success = (settled S (M.gathers c) cur).map fun data => (c, data, cur.used) := by
  cases hg : M.gathers c with
  | none => cases hec : cur.ec <;> simp [finish, hg, Written.success, settled, hec, gather]
  | some t =>
    have hne : cur.piece ≠ [] := by simpa [hg] using hpiece
    cases ho : S.take t cur.piece cur.data <;> cases hec : cur.ec <;>
      simp [finish, hg, ho, Cursor.checked, Written.success, settled, hec, gather, hand, hne, value?]

/-- What is left of the loop after the actions of one turn. -/
private def after (M : Machine κ α τ γ χ) (S : Sink α τ γ χ δ) (fuel : Nat)
    (o : Outcome (χ × κ) (κ × Bool)) : Progress α χ δ → Option (κ × δ × Nat)
  | .on cur =>
    match o with
    | .returned (c, true) => (Written.returned c cur.data cur.used cur.ec).success
    | .returned (c, false) => (loop M S fuel c cur.advance).success
    | _ => none
  | _ => none

/-- A turn of the loop, as what comes after its actions and its outcome. -/
private theorem loop_after (fuel : Nat) (c : κ) (cur : Cursor α χ δ) {a : α} {rest : List α}
    (hrest : cur.rest = a :: rest) :
    (loop M S (fuel + 1) c cur).success =
      after M S fuel (M.turn c (a :: rest).length a).outcome
        (performAll S (M.turn c (a :: rest).length a).events cur) := by
  rw [loop]
  simp only [hrest]
  generalize M.turn c (a :: rest).length a = turn
  generalize performAll S turn.events cur = p
  cases p with
  | on next =>
    simp only [after]
    cases turn.outcome with
    | returned r =>
      obtain ⟨c', left⟩ := r
      cases left <;> rfl
    | threw | aborted | undefined => rfl
  | stopped | aborted | undefined => rfl

/-- Reading the first octet alone and going on with the next is all one. -/
private theorem after_bulk (fuel : Nat) {c' : κ} {acts : List (Action τ γ)} {cur : Cursor α χ δ} {a a' : α}
    {rest : List α} (hrest : cur.rest = a :: a' :: rest) (hadvances : advances acts = 0) :
    after M S fuel (M.turn c' (a' :: rest).length a').outcome
        (performAll S (acts ++ .advance :: (M.turn c' (a' :: rest).length a').events) cur) =
      after M S (fuel + 1) (.returned (c', false)) (performAll S acts cur) := by
  rw [performAll_append]
  cases hp : performAll S acts cur with
  | on next =>
    have hnext : next.advance.rest = a' :: rest := by
      rw [Cursor.advance, (performAll_position hp).1, hrest, hadvances]
      rfl
    exact (loop_after fuel c' next.advance hnext).symm
  | stopped | aborted | undefined => rfl

end

section
variable {κ α τ γ χ δ : Type} [DecidableEq τ] {M : Machine κ α τ γ χ} {S : Sink α τ γ χ δ} {I : κ → Prop}

/-- A turn that reads one octet alone, then the rest of the loop. -/
private theorem after_single (hM : M.Lawful I) (hS : S.Additive) {fuel : Nat} {c : κ} {cur : Cursor α χ δ}
    {a : α} {rest : List α} (hc : I c) (hrest : cur.rest = a :: rest)
    (ih : ∀ c' cur', I c' → cur'.rest = rest → cur'.piece ≠ [] →
      (loop M S fuel c' cur').success = (settled S (M.gathers c') cur').bind fun data =>
        (run M S rest c' data).map fun r => (r.control, r.data, cur'.used + r.used)) :
    after M S fuel (M.turn c 1 a).outcome (performAll S (M.turn c 1 a).events cur) =
      (settled S (M.gathers c) cur).bind fun data =>
        (run M S (a :: rest) c data).map fun r => (r.control, r.data, cur.used + r.used) := by
  cases ho : (M.turn c 1 a).outcome with
  | threw | aborted | undefined =>
    cases performAll S (M.turn c 1 a).events cur <;> simp [after, run, octet, ho]
  | returned r =>
    obtain ⟨c', left⟩ := r
    have hsettled := performAll_settled hS (hM.flow c a c' left hc ho) cur
    have hadvances := hM.advances c a c' left hc ho
    have heager : eager S (M.turn c 1 a).events (M.gathers c) cur.rest =
        eager S (M.turn c 1 a).events (M.gathers c) [a] := by
      funext data
      rw [eager_take _ _ cur.rest, eager_take _ _ [a], hrest, hadvances]
      cases left <;> rfl
    rw [heager] at hsettled
    cases left with
    | true =>
      rw [hM.left c a c' hc ho] at hsettled
      have hrun : (fun data => (run M S (a :: rest) c data).map fun r =>
        (r.control, r.data, cur.used + r.used)) =
          Option.map (fun data => (c', data, cur.used + 1)) ∘
            eager S (M.turn c 1 a).events (M.gathers c) [a] := by
        funext data
        cases heq : eager S (M.turn c 1 a).events (M.gathers c) [a] data <;> simp [run, octet, ho, heq]
      rw [hrun, ← Option.map_bind, ← hsettled]
      cases hp : performAll S (M.turn c 1 a).events cur with
      | on next =>
        have hused := (performAll_position hp).2
        rw [hadvances] at hused
        cases hec : next.ec <;>
          simp [after, Written.success, Progress.settled, settled, gather, hec, hused]
      | stopped | aborted | undefined => rfl
    | false =>
      have hrun : (fun data => (run M S (a :: rest) c data).map fun r =>
        (r.control, r.data, cur.used + r.used)) =
          fun data => (eager S (M.turn c 1 a).events (M.gathers c) [a] data).bind fun data =>
            (gather S (M.gathers c') [a] data).bind fun data =>
              (run M S rest c' data).map fun r => (r.control, r.data, cur.used + 1 + r.used) := by
        funext data
        cases heq : eager S (M.turn c 1 a).events (M.gathers c) [a] data with
        | none => simp [run, octet, ho, heq]
        | some data' =>
          cases hgather : gather S (M.gathers c') [a] data' with
          | none => simp [run, octet, ho, heq, hgather]
          | some data'' =>
            simp [run, octet, ho, heq, hgather, Function.comp_def, Reached.after, Nat.add_assoc, Nat.add_comm 1]
      rw [hrun, ← Option.bind_assoc, ← hsettled]
      cases hp : performAll S (M.turn c 1 a).events cur with
      | on next =>
        obtain ⟨hrest', hused⟩ := performAll_position hp
        rw [hadvances] at hrest' hused
        have hnext : next.rest = a :: rest := hrest'.trans hrest
        have hloop := ih c' next.advance (hM.kept c a c' false hc ho) (by simp [Cursor.advance, hnext])
          (by simp [Cursor.advance, hnext])
        have hone : next.rest.take 1 = [a] := by rw [hnext]; rfl
        rw [settled_advance hS, hone, Option.bind_assoc] at hloop
        rw [after, hloop]
        simp [Progress.settled, Cursor.advance, hused]
      | stopped | aborted | undefined => rfl

/-- What a call that succeeds does is what happens octet by octet: the loop hands pieces over
    when they are complete or the buffer ends, and may read several octets in a turn. -/
theorem loop_success (hM : M.Lawful I) (hS : S.Additive) {fuel : Nat} {c : κ} {cur : Cursor α χ δ} (hc : I c)
    (hfuel : cur.rest.length ≤ fuel) (hpiece : cur.rest = [] → cur.piece ≠ []) :
    (loop M S fuel c cur).success = (settled S (M.gathers c) cur).bind fun data =>
      (run M S cur.rest c data).map fun r => (r.control, r.data, cur.used + r.used) := by
  induction hn : cur.rest.length generalizing fuel c cur with
  | zero =>
    have hrest : cur.rest = [] := List.length_eq_zero_iff.mp hn
    have hfinish : (loop M S fuel c cur).success = (finish M S c cur).success := by
      cases fuel <;> simp [loop, hrest]
    rw [hfinish, finish_success (.inr (hpiece hrest)), hrest]
    cases settled S (M.gathers c) cur <;> rfl
  | succ n ih =>
    obtain ⟨a, rest, hrest⟩ := List.exists_cons_of_length_eq_add_one hn
    have hlength : rest.length = n := by simpa [hrest] using hn
    obtain ⟨fuel, rfl⟩ : ∃ f, fuel = f + 1 := ⟨fuel - 1, by omega⟩
    have hnext : ∀ c' cur', I c' → cur'.rest = rest → cur'.piece ≠ [] →
        (loop M S fuel c' cur').success = (settled S (M.gathers c') cur').bind fun data =>
          (run M S rest c' data).map fun r => (r.control, r.data, cur'.used + r.used) := by
      intro c' cur' hc' hrest' hpiece'
      rw [← hrest']
      exact ih hc' (by rw [hrest']; omega) (fun _ => hpiece') (by rw [hrest', hlength])
    rw [loop_after fuel c cur hrest, hrest]
    cases rest with
    | nil => exact after_single hM hS hc hrest hnext
    | cons a' rest =>
      rcases hM.bulk c rest.length a a' hc with hsame | ⟨acts, c', hfirst, hbulk⟩
      · rw [show (a :: a' :: rest).length = rest.length + 2 from rfl, hsame]
        exact after_single hM hS hc hrest hnext
      · have hadvances : advances acts = 0 := by
          have h := hM.advances c a c' false hc (by rw [hfirst])
          rwa [hfirst] at h
        rw [show (a :: a' :: rest).length = rest.length + 2 from rfl, hbulk]
        refine (after_bulk fuel hrest hadvances).trans ?_
        have hsingle := @after_single _ _ _ _ _ _ _ M S I hM hS (fuel + 1) c cur a (a' :: rest) hc hrest
          fun c'' cur' hc' hrest' hpiece' => by
            rw [← hrest']
            exact ih hc' (by rw [hrest']; omega) (fun _ => hpiece') (by rw [hrest', hlength])
        rwa [hfirst] at hsingle

/-- A buffer that is not empty, read octet by octet. -/
theorem write_success (hM : M.Lawful I) (hS : S.Additive) {c : κ} {buffer : List α} {data : δ} (hc : I c)
    (hbuffer : buffer ≠ []) :
    (write M S c buffer data).success = (run M S buffer c data).map fun r => (r.control, r.data, r.used) := by
  let cur : Cursor α χ δ := ⟨[], buffer, 0, none, data⟩
  have hloop : (loop M S buffer.length c cur).success = _ :=
    loop_success hM hS hc (Nat.le_refl _) fun h => absurd h hbuffer
  simpa [cur, settled, write] using hloop

end

section
variable {κ α τ γ χ δ : Type} {M : Machine κ α τ γ χ} {S : Sink α τ γ χ δ}

/-- What every octet keeps, reading on keeps. -/
theorem run_invariant {J : κ → δ → Prop}
    (hoctet : ∀ c a data c' data' left, J c data → octet M S c a data = some (c', data', left) → J c' data')
    {as : List α} {c : κ} {data : δ} {r : Reached κ δ} (h : run M S as c data = some r) (hJ : J c data) :
    J r.control r.data := by
  induction as generalizing c data r with
  | nil =>
    cases h
    exact hJ
  | cons a as ih =>
    obtain ⟨⟨c', data', left⟩, hfirst, hrest⟩ := Option.bind_eq_some_iff.mp h
    have hnext := hoctet c a data c' data' left hJ hfirst
    cases left with
    | true =>
      cases hrest
      exact hnext
    | false =>
      obtain ⟨r', hr', rfl⟩ := Option.map_eq_some_iff.mp hrest
      have hlast := ih hr' hnext
      exact hlast

/-- What every callback of the sink keeps. -/
structure Sink.Keeps (S : Sink α τ γ χ δ) (P : δ → Prop) : Prop where
  take : ∀ t as data data', P data → S.take t as data = .returned data' → P data'
  call : ∀ callback data data', P data → S.call callback data = .returned data' → P data'

/-- An outcome with a value has returned it. -/
theorem value?_eq_some {o : Outcome χ α} {a : α} (h : value? o = some a) : o = .returned a := by
  cases o <;> cases h
  rfl

/-- What every callback keeps, giving the sink a piece keeps. -/
theorem Sink.Keeps.gather {P : δ → Prop} (hS : S.Keeps P) {cb : Option τ} {as : List α} {data data' : δ}
    (h : push.gather S cb as data = some data') (hP : P data) : P data' := by
  cases cb with
  | none =>
    cases h
    exact hP
  | some t =>
    simp only [push.gather, hand] at h
    split_ifs at h
    · cases h
      exact hP
    · exact hS.take t as data _ hP (value?_eq_some h)

theorem Sink.Keeps.eager {P : δ → Prop} (hS : S.Keeps P) {acts : List (Action τ γ)} {cb : Option τ}
    {as : List α}
    {data data' : δ} (h : push.eager S acts cb as data = some data') (hP : P data) : P data' := by
  induction acts generalizing cb as data with
  | nil =>
    cases h
    exact hP
  | cons act acts ih =>
    cases act with
    | advance =>
      obtain ⟨mid, hmid, hrest⟩ := Option.bind_eq_some_iff.mp h
      exact ih hrest (hS.gather hmid hP)
    | begin | piece => exact ih h hP
    | call callback | callUnchecked callback =>
      obtain ⟨mid, hmid, hrest⟩ := Option.bind_eq_some_iff.mp h
      exact ih hrest (hS.call callback data mid hP (value?_eq_some hmid))

/-- What every callback keeps, a whole turn keeps. -/
theorem Sink.Keeps.octet {P : δ → Prop} (hS : S.Keeps P) {c c' : κ} {a : α} {data data' : δ} {left : Bool}
    (h : push.octet M S c a data = some (c', data', left)) (hP : P data) : P data' := by
  unfold push.octet at h
  split at h
  · obtain ⟨mid, hmid, hrest⟩ := Option.bind_eq_some_iff.mp h
    have hP' := hS.eager hmid hP
    split_ifs at hrest
    · cases hrest
      exact hP'
    · obtain ⟨last, hlast, ⟨⟩⟩ := Option.map_eq_some_iff.mp hrest
      exact hS.gather hlast hP'
  · cases h

/-- What every callback keeps, a run over any octets keeps. -/
theorem Sink.Keeps.run {P : δ → Prop} (hS : S.Keeps P) {as : List α} {c : κ} {data : δ} {r : Reached κ δ}
    (h : push.run M S as c data = some r) (hP : P data) : P r.data := by
  have hinvariant := @run_invariant _ _ _ _ _ _ M S (fun _ data => P data)
    (fun c a data c' data' left hP h => hS.octet h hP) as c data r h hP
  exact hinvariant

/-- A turn for one octet that succeeds returned. -/
theorem octet_turn {c c' : κ} {a : α} {data data' : δ} {left : Bool}
    (h : octet M S c a data = some (c', data', left)) :
    (M.turn c 1 a).outcome = .returned (c', left) := by
  unfold octet at h
  split at h
  · rename_i c'' left' ho
    obtain ⟨mid, -, hrest⟩ := Option.bind_eq_some_iff.mp h
    rw [ho]
    split_ifs at hrest with hleft
    · cases hrest
      rw [hleft]
    · obtain ⟨last, -, ⟨⟩⟩ := Option.map_eq_some_iff.mp hrest
      simp only [Bool.not_eq_true] at hleft
      rw [hleft]
  · cases h

/-- How many octets have been read: all of them, unless the loop ended before. -/
theorem run_used {as : List α} {c : κ} {data : δ} {r : Reached κ δ} (h : run M S as c data = some r) :
    r.used ≤ as.length ∧ (r.left = false → r.used = as.length) := by
  induction as generalizing c data r with
  | nil =>
    cases h
    exact ⟨Nat.le_refl _, fun _ => rfl⟩
  | cons a as ih =>
    obtain ⟨⟨c', data', left⟩, -, hrest⟩ := Option.bind_eq_some_iff.mp h
    cases left with
    | true =>
      cases hrest
      exact ⟨by simp, fun h => by cases h⟩
    | false =>
      obtain ⟨r', hr', rfl⟩ := Option.map_eq_some_iff.mp hrest
      obtain ⟨hle, hall⟩ := ih hr'
      refine ⟨?_, fun hleft => ?_⟩
      · simp only [Reached.after, List.length_cons]
        omega
      · have hused := hall hleft
        simp only [Reached.after, List.length_cons, hused]
        omega

/-- Where the states in which the loop ends can be told from the others, reading ends in one of
    them and stops with the first. -/
theorem run_left {I : κ → Prop} {last : κ → Bool}
    (hoctet : ∀ c a data c' data' left, I c → octet M S c a data = some (c', data', left) →
      I c' ∧ left = last c')
    {as : List α} {c : κ} {data : δ} {r : Reached κ δ} (h : run M S as c data = some r) (hc : I c)
    (hlast : last c = false) : r.left = last r.control := by
  induction as generalizing c data r with
  | nil =>
    cases h
    exact hlast.symm
  | cons a as ih =>
    obtain ⟨⟨c', data', left⟩, hfirst, hrest⟩ := Option.bind_eq_some_iff.mp h
    obtain ⟨hc', hleft⟩ := hoctet c a data c' data' left hc hfirst
    cases left with
    | true =>
      cases hrest
      exact hleft
    | false =>
      obtain ⟨r', hr', rfl⟩ := Option.map_eq_some_iff.mp hrest
      have hrest' := ih hr' hc' hleft.symm
      exact hrest'

/-- Reading on where reading stopped. -/
theorem run_append (as bs : List α) (c : κ) (data : δ) :
    run M S (as ++ bs) c data = (run M S as c data).bind fun r =>
      if r.left then some r else (run M S bs r.control r.data).map (·.after r.used) := by
  induction as generalizing c data with
  | nil => simp [run, Reached.after]
  | cons a as ih =>
    simp only [List.cons_append, run, Option.bind_assoc]
    congr 1
    funext ⟨c', data', left⟩
    cases left with
    | true => rfl
    | false =>
      simp only [Bool.false_eq_true, if_false, ih]
      cases run M S as c' data' with
      | none => rfl
      | some r =>
        by_cases hleft : r.left = true
        · simp [Reached.after, hleft]
        · simp [Reached.after, hleft, Function.comp_def, Nat.add_assoc]

end

end push
