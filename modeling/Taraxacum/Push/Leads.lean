import Taraxacum.Push.Octets

open exec

/- Reading a text piece by piece: where each part of it leads, and where the whole. -/
namespace push

section
variable {κ α τ γ χ δ : Type} (M : Machine κ α τ γ χ) (S : Sink α τ γ χ δ)

/-- Reading `s` leads from one state to another, and the loop goes on. -/
def Leads (s : List α) (c : κ) (data : δ) (c' : κ) (data' : δ) : Prop :=
  run M S s c data = some ⟨c', data', s.length, false⟩

/-- Reading `s` leads from one state to another, and the loop ends with the last octet. -/
def Ends (s : List α) (c : κ) (data : δ) (c' : κ) (data' : δ) : Prop :=
  run M S s c data = some ⟨c', data', s.length, true⟩

/-- Octets read one by one in turns that do nothing but gather for `t`, if for anybody. -/
inductive Quiet (t : Option τ) : List α → κ → κ → Prop
  | nil {c : κ} : Quiet t [] c c
  | cons {a : α} {s : List α} {c c' c'' : κ} (hturn : M.turn c 1 a = ⟨[], .returned (c', false)⟩)
      (hgathers : M.gathers c' = t) (hrest : Quiet t s c' c'') : Quiet t (a :: s) c c''

end

section
variable {κ α τ γ χ δ : Type} {M : Machine κ α τ γ χ} {S : Sink α τ γ χ δ}
  {c c' c'' : κ} {data data' data'' : δ} {s s' : List α}

theorem Leads.nil : Leads M S [] c data c data := rfl

/-- Octets that lead from state to state may be put one after the other. -/
theorem Leads.append (h : Leads M S s c data c' data') (h' : Leads M S s' c' data' c'' data'') :
    Leads M S (s ++ s') c data c'' data'' := by
  rw [Leads] at h h' ⊢
  rw [run_append, h, Option.bind_some, if_neg Bool.false_ne_true, h', List.length_append]
  rfl

/-- Octets that lead to a state from which others end the message end it with them. -/
theorem Leads.ends (h : Leads M S s c data c' data') (h' : Ends M S s' c' data' c'' data'') :
    Ends M S (s ++ s') c data c'' data'' := by
  rw [Leads] at h
  rw [Ends] at h' ⊢
  rw [run_append, h, Option.bind_some, if_neg Bool.false_ne_true, h', List.length_append]
  rfl

/-- What follows the end is not read. -/
theorem Ends.run_append (h : Ends M S s c data c' data') (rest : List α) :
    run M S (s ++ rest) c data = some ⟨c', data', s.length, true⟩ := by
  rw [push.run_append, show run M S s c data = _ from h]
  rfl

/-- One octet leads where its turn does. -/
theorem Leads.octet {a : α} (h : push.octet M S c a data = some (c', data', false)) :
    Leads M S [a] c data c' data' := by
  rw [Leads, run, h]
  rfl

/-- One octet ends the message if its turn leaves the loop. -/
theorem Ends.octet {a : α} (h : push.octet M S c a data = some (c', data', true)) :
    Ends M S [a] c data c' data' := by
  rw [Ends, run, h]
  rfl

/-- One octet more in front. -/
theorem Leads.cons {a : α} (h : push.octet M S c a data = some (c', data', false))
    (h' : Leads M S s c' data' c'' data'') : Leads M S (a :: s) c data c'' data'' :=
  (Leads.octet h).append h'

/-- One octet more in front of those that end the message. -/
theorem Ends.cons {a : α} (h : push.octet M S c a data = some (c', data', false))
    (h' : Ends M S s c' data' c'' data'') : Ends M S (a :: s) c data c'' data'' :=
  (Leads.octet h).ends h'

/-- A turn that passes nothing but the octet it ends at. -/
theorem octet_eq {acts : List (Action τ γ)} {a : α} (hturn : M.turn c 1 a = ⟨acts, .returned (c', false)⟩)
    (hacts : eager S acts (M.gathers c) [a] data = some data')
    (hgather : gather S (M.gathers c') [a] data' = some data'') :
    push.octet M S c a data = some (c', data'', false) := by
  rw [push.octet, hturn]
  simp only [hacts, Option.bind_some, Bool.false_eq_true, if_false, hgather, Option.map_some]

/-- The turn for the last octet of a message, from what the machine does in it. -/
theorem octet_last {acts : List (Action τ γ)} {a : α} (hturn : M.turn c 1 a = ⟨acts, .returned (c', true)⟩)
    (hacts : eager S acts (M.gathers c) [a] data = some data') :
    push.octet M S c a data = some (c', data', true) := by
  rw [push.octet, hturn]
  simp only [hacts, Option.bind_some, if_true]

/-- A turn that is the turn of another state. -/
theorem octet_same {a : α} (hturn : M.turn c 1 a = M.turn c' 1 a) (hgathers : M.gathers c = M.gathers c') :
    push.octet M S c a data = push.octet M S c' a data := by
  rw [push.octet, push.octet, hturn, hgathers]

/-- A turn that makes a callback and is then the turn of another state. -/
theorem octet_call {a : α} {callback : γ}
    (hturn : M.turn c 1 a = ⟨.call callback :: (M.turn c' 1 a).events, (M.turn c' 1 a).outcome⟩)
    (hgathers : M.gathers c = M.gathers c') (hcall : S.call callback data = .returned data') :
    push.octet M S c a data = push.octet M S c' a data' := by
  rw [push.octet, push.octet, hturn, hgathers]
  simp only [eager, hcall, value?, Option.bind_some]

/-- A turn that begins to gather and is then the turn of another state. -/
theorem octet_begin {a : α} {t : τ}
    (hturn : M.turn c 1 a = ⟨.begin t :: (M.turn c' 1 a).events, (M.turn c' 1 a).outcome⟩)
    (hgathers : M.gathers c' = some t) : push.octet M S c a data = push.octet M S c' a data := by
  rw [push.octet, push.octet, hturn, hgathers]
  rfl

/-- Two states that do the same with the next octet do the same with all that begin with it. -/
theorem run_same {a : α} (h : push.octet M S c a data = push.octet M S c' a data') (s : List α) :
    run M S (a :: s) c data = run M S (a :: s) c' data' := by
  rw [run, run, h]

/-- Turns that only gather hand over the octets they gather, all in one. -/
theorem Quiet.leads (hS : S.Additive) {t : Option τ} (h : Quiet M t s c c')
    (hgather : gather S t s data = some data') :
    Leads M S s c data c' data' := by
  induction h generalizing data with
  | nil =>
    rw [gather_nil] at hgather
    cases hgather
    exact .nil
  | @cons a s c c' c'' hturn hgathers hrest ih =>
    rw [← List.singleton_append, gather_append hS] at hgather
    obtain ⟨mid, hfirst, hlast⟩ := Option.bind_eq_some_iff.mp hgather
    exact .cons (octet_eq hturn rfl (by rw [hgathers, hfirst])) (ih hlast)

/-- A turn without actions that goes on gathering is quiet. -/
theorem Quiet.one {t : Option τ} {a : α} (hturn : M.turn c 1 a = ⟨[], .returned (c', false)⟩)
    (hgathers : M.gathers c' = t) : Quiet M t [a] c c' := .cons hturn hgathers .nil

/-- Octets that only add to one piece may be put one after the other. -/
theorem Quiet.append {t : Option τ} (h : Quiet M t s c c') (h' : Quiet M t s' c' c'') :
    Quiet M t (s ++ s') c c'' := by
  induction h with
  | nil => exact h'
  | cons hturn hgathers _ ih => exact .cons hturn hgathers (ih h')

/-- A piece begins with an octet and goes on quietly. -/
theorem Quiet.piece (hS : S.Additive) {t : τ} {a : α} {acts : List (Action τ γ)}
    (hfirst : M.turn c 1 a = ⟨acts, .returned (c', false)⟩)
    (hacts : eager S acts (M.gathers c) [a] data = some data')
    (hgathers : M.gathers c' = some t) (hrest : Quiet M (some t) s c' c'')
    (htake : hand S t (a :: s) data' = some data'') :
    Leads M S (a :: s) c data c'' data'' := by
  rw [← List.singleton_append, hS] at htake
  obtain ⟨mid, hmid, hlast⟩ := Option.bind_eq_some_iff.mp htake
  have hone : gather S (M.gathers c') [a] data' = some mid := by rwa [hgathers]
  exact .cons (octet_eq hfirst hacts hone) (hrest.leads hS hlast)

/-- A state in which the same octets change nothing. -/
theorem Quiet.same {t : Option τ} (hgathers : M.gathers c = t)
    (h : ∀ a ∈ s, M.turn c 1 a = ⟨[], .returned (c, false)⟩) : Quiet M t s c c := by
  induction s with
  | nil => exact .nil
  | cons a s ih =>
    obtain ⟨hfirst, hrest⟩ := List.forall_mem_cons.mp h
    exact .cons hfirst hgathers (ih hrest)

end

end push
