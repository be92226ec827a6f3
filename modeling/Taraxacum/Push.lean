import Taraxacum.Exec

open exec

/- Push parsers, over any octets, states and errors: a machine reads a buffer octet by octet
   and gathers octets into pieces, which it hands to a sink at the latest when the buffer ends. -/
namespace push

/-- What a machine does within one turn of its loop: it moves past an octet, begins to gather
    for `t`, hands `t` what has been gathered, or makes another callback, after which
    it looks at the error or does not. -/
inductive Action (τ γ : Type) where
  | advance
  | begin (t : τ)
  | piece (t : τ)
  | call (callback : γ)
  | callUnchecked (callback : γ)
  deriving DecidableEq

/-- `turn c n a` is the turn in state `c` at `a`, the first of the `n` octets left: its actions,
    and the state it leads to, with `true` if the loop ends there, or an error. -/
structure Machine (κ α τ γ χ : Type) where
  turn : κ → Nat → α → Exec (Action τ γ) (χ × κ) (κ × Bool)
  gathers : κ → Option τ
  dead : κ → κ

/-- Who gets the pieces and the other callbacks. -/
structure Sink (α τ γ χ δ : Type) where
  take : τ → List α → δ → Outcome χ δ
  call : γ → δ → Outcome χ δ

/-- Within a buffer: what has been gathered, what has not been read yet, how much has
    been read, the error reported so far and the sink's own state. -/
structure Cursor (α χ δ : Type) where
  piece : List α
  rest : List α
  used : Nat
  ec : Option χ
  data : δ

def Cursor.advance {α χ δ : Type} (cur : Cursor α χ δ) : Cursor α χ δ :=
  { cur with piece := cur.piece ++ cur.rest.take 1, rest := cur.rest.drop 1, used := cur.used + 1 }

inductive Progress (α χ δ : Type) where
  | on (cur : Cursor α χ δ)
  | stopped (e : χ) (cur : Cursor α χ δ)
  | aborted
  | undefined

def Progress.bind {α χ δ : Type} (p : Progress α χ δ) (f : Cursor α χ δ → Progress α χ δ) : Progress α χ δ :=
  match p with
  | .on cur => f cur
  | .stopped e cur => .stopped e cur
  | .aborted => .aborted
  | .undefined => .undefined

/-- How a call ends that is given one buffer. -/
inductive Written (κ χ δ : Type) where
  | returned (control : κ) (data : δ) (used : Nat) (ec : Option χ)
  | aborted
  | undefined
  deriving DecidableEq

/-- The call came back without an error. -/
def Written.success {κ χ δ : Type} : Written κ χ δ → Option (κ × δ × Nat)
  | .returned control data used none => some (control, data, used)
  | _ => none

/-- The call with the octets counted that calls before it have read. -/
def Written.after {κ χ δ : Type} (w : Written κ χ δ) (used : Nat) : Written κ χ δ :=
  match w with
  | .returned control data used' ec => .returned control data (used + used') ec
  | .aborted => .aborted
  | .undefined => .undefined

/-- What was read of earlier buffers is counted with what is read of this one. -/
theorem Written.success_after {κ χ δ : Type} (w : Written κ χ δ) (used : Nat) :
    (w.after used).success = w.success.map fun (control, data, used') => (control, data, used + used') := by
  cases w with
  | returned control data used' ec => cases ec <;> rfl
  | aborted | undefined => rfl

/-- A write succeeds if it returns without an error. -/
theorem Written.success_eq_some {κ χ δ : Type} {w : Written κ χ δ} {control : κ} {data : δ} {used : Nat} :
    w.success = some (control, data, used) ↔ w = .returned control data used none := by
  cases w with
  | returned control' data' used' ec => cases ec <;> simp [Written.success]
  | aborted | undefined => simp [Written.success]

section
variable {κ α τ γ χ δ : Type} (M : Machine κ α τ γ χ) (S : Sink α τ γ χ δ)

/-- A callback after which the error is looked at. -/
def Cursor.checked (cur : Cursor α χ δ) : Outcome χ δ → Progress α χ δ
  | .returned data =>
    match cur.ec with
    | some e => .stopped e { cur with data }
    | none => .on { cur with data }
  | .threw e => .stopped e cur
  | .aborted => .aborted
  | .undefined => .undefined

def Cursor.unchecked (cur : Cursor α χ δ) : Outcome χ δ → Progress α χ δ
  | .returned data => .on { cur with data }
  | .threw e => .on { cur with ec := some e }
  | .aborted => .aborted
  | .undefined => .undefined

def perform (cur : Cursor α χ δ) : Action τ γ → Progress α χ δ
  | .advance => .on cur.advance
  | .begin _ => .on { cur with piece := [] }
  | .piece t => if cur.piece.isEmpty then .on cur else cur.checked (S.take t cur.piece cur.data)
  | .call callback => cur.checked (S.call callback cur.data)
  | .callUnchecked callback => cur.unchecked (S.call callback cur.data)

def performAll : List (Action τ γ) → Cursor α χ δ → Progress α χ δ
  | [], cur => .on cur
  | act :: acts, cur => (perform S cur act).bind (performAll acts)

/-- At the end of the buffer what has been gathered is handed over. -/
def finish (c : κ) (cur : Cursor α χ δ) : Written κ χ δ :=
  match M.gathers c with
  | none => .returned c cur.data cur.used cur.ec
  | some t =>
    match cur.checked (S.take t cur.piece cur.data) with
    | .on cur => .returned c cur.data cur.used cur.ec
    | .stopped e cur => .returned (M.dead c) cur.data cur.used (some e)
    | .aborted => .aborted
    | .undefined => .undefined

/-- The loop over the octets of a buffer. Every turn reads one of them at least, so their
    number is fuel enough. -/
def loop : Nat → κ → Cursor α χ δ → Written κ χ δ
  | 0, c, cur => finish M S c cur
  | fuel + 1, c, cur =>
    match cur.rest with
    | [] => finish M S c cur
    | a :: rest =>
      let turn := M.turn c (a :: rest).length a
      match performAll S turn.events cur with
      | .stopped e cur => .returned (M.dead c) cur.data cur.used (some e)
      | .aborted => .aborted
      | .undefined => .undefined
      | .on cur =>
        match turn.outcome with
        | .returned (c, true) => .returned c cur.data cur.used cur.ec
        | .returned (c, false) => loop fuel c cur.advance
        | .threw (e, c) => .returned c cur.data cur.used (some e)
        | .aborted => .aborted
        | .undefined => .undefined

def write (c : κ) (buffer : List α) (data : δ) : Written κ χ δ :=
  loop M S buffer.length c ⟨[], buffer, 0, none, data⟩

end

end push
