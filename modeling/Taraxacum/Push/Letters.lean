import Taraxacum.Push.Octets

open exec

/- What a push parser hands to whom: if every octet it gathers for `t` is a letter of `t`, then
   so is every octet `t` is ever given, however much it is given at once. -/
namespace push

section
variable {κ α τ γ χ δ : Type}

/-- The octets a machine gathers for `t` are letters of `t`, and its other callbacks are sober. -/
structure Machine.Lettered (M : Machine κ α τ γ χ) (I : κ → Prop) (letter : τ → α → Prop)
    (sober : γ → Prop) : Prop where
  gathers : ∀ c a c', I c → (M.turn c 1 a).outcome = .returned (c', false) →
    ∀ t, M.gathers c' = some t → letter t a
  last : ∀ c a c', I c → (M.turn c 1 a).outcome = .returned (c', true) →
    ∀ t, .piece t ∈ (M.turn c 1 a).events → letter t a
  calls : ∀ c a c' left, I c → (M.turn c 1 a).outcome = .returned (c', left) →
    ∀ g, .call g ∈ (M.turn c 1 a).events ∨ .callUnchecked g ∈ (M.turn c 1 a).events → sober g

/-- What the callbacks of a sink keep when they are given letters. -/
structure Sink.KeepsLetters (S : Sink α τ γ χ δ) (letter : τ → α → Prop) (sober : γ → Prop)
    (P : δ → Prop) : Prop where
  take : ∀ t as data data', (∀ a ∈ as, letter t a) → P data → S.take t as data = .returned data' → P data'
  call : ∀ g data data', sober g → P data → S.call g data = .returned data' → P data'

variable {M : Machine κ α τ γ χ} {S : Sink α τ γ χ δ} {I : κ → Prop} {letter : τ → α → Prop} {sober : γ → Prop}
  {P : δ → Prop}

/-- What a machine gathers for, and no longer gathers for after its actions, has been handed its piece. -/
theorem mem_of_flow [DecidableEq τ] {t : τ} {acts : List (Action τ γ)}
    (h : flow (some t) acts = some none) : .piece t ∈ acts := by
  induction acts with
  | nil => cases h
  | cons act acts ih =>
    cases act with
    | advance => exact List.mem_cons_of_mem _ (ih h)
    | piece t' =>
      rw [flow] at h
      split_ifs at h with ht
      rw [ht]
      exact List.mem_cons_self ..
    | begin | call | callUnchecked => cases h

/-- What callbacks keep that are given letters is kept by a piece of letters. -/
theorem Sink.KeepsLetters.gather (hS : S.KeepsLetters letter sober P) {cb : Option τ} {as : List α}
    {data data' : δ}
    (hletter : ∀ t, cb = some t → ∀ a ∈ as, letter t a) (h : push.gather S cb as data = some data')
    (hP : P data) :
    P data' := by
  cases cb with
  | none =>
    cases h
    exact hP
  | some t =>
    simp only [push.gather, hand] at h
    split_ifs at h
    · cases h
      exact hP
    · exact hS.take t as data _ (hletter t rfl) hP (value?_eq_some h)

/-- The actions of one turn: if they pass octets, what is gathered of them is handed over in the end. -/
theorem Sink.KeepsLetters.eager [DecidableEq τ] (hS : S.KeepsLetters letter sober P)
    {acts : List (Action τ γ)} {cb : Option τ}
    {as : List α} {data data' : δ}
    (hpieces : advances acts = 0 ∨ flow cb acts = some none ∧ ∀ t, .piece t ∈ acts → ∀ a ∈ as, letter t a)
    (hcalls : ∀ g, .call g ∈ acts ∨ .callUnchecked g ∈ acts → sober g)
    (h : push.eager S acts cb as data = some data') (hP : P data) : P data' := by
  induction acts generalizing cb as data with
  | nil =>
    cases h
    exact hP
  | cons act acts ih =>
    have hcalls' : ∀ g, .call g ∈ acts ∨ .callUnchecked g ∈ acts → sober g := fun g hg =>
      hcalls g (hg.imp (List.mem_cons_of_mem _) (List.mem_cons_of_mem _))
    -- What the first action leaves to be gathered for is what the flow says.
    have hrest : ∀ cb', flow cb (act :: acts) = flow cb' acts ∨ flow cb (act :: acts) = none →
        advances (act :: acts) = advances acts →
        advances acts = 0 ∨ flow cb' acts = some none ∧ ∀ t, .piece t ∈ acts → ∀ a ∈ as, letter t a := by
      intro cb' hflow hadvances
      rw [hadvances] at hpieces
      refine hpieces.imp_right fun ⟨hdone, hletters⟩ => ⟨?_, fun t ht => hletters t (List.mem_cons_of_mem _ ht)⟩
      rcases hflow with hflow | hflow
      · rwa [hflow] at hdone
      · rw [hflow] at hdone
        cases hdone
    cases act with
    | advance =>
      obtain ⟨hflow, hletters⟩ := hpieces.resolve_left (Nat.succ_ne_zero _)
      obtain ⟨mid, hmid, hnext⟩ := Option.bind_eq_some_iff.mp h
      refine ih (.inr ⟨hflow, fun t ht a ha => ?_⟩) hcalls' hnext ?_
      · exact hletters t (List.mem_cons_of_mem _ ht) a (List.mem_of_mem_drop ha)
      · refine hS.gather ?_ hmid hP
        rintro t rfl a ha
        exact hletters t (List.mem_cons_of_mem _ (mem_of_flow hflow)) a (List.mem_of_mem_take ha)
    | begin t =>
      refine ih (hrest (some t) ?_ rfl) hcalls' h hP
      cases cb with
      | none => exact .inl rfl
      | some _ => exact .inr rfl
    | piece t =>
      refine ih (hrest none ?_ rfl) hcalls' h hP
      cases cb with
      | none => exact .inr rfl
      | some t' =>
        rw [flow]
        split
        · exact .inl rfl
        · exact .inr rfl
    | call g | callUnchecked g =>
      obtain ⟨mid, hmid, hnext⟩ := Option.bind_eq_some_iff.mp h
      refine ih (hrest cb ?_ rfl) hcalls' hnext
        (hS.call g data mid (hcalls g (by simp)) hP (value?_eq_some hmid))
      cases cb with
      | none => exact .inl rfl
      | some _ => exact .inr rfl

/-- What callbacks keep that are given letters, a turn for one octet keeps, since the machine
    gathers letters only. -/
theorem Sink.KeepsLetters.octet [DecidableEq τ] {J : κ → Prop} (hS : S.KeepsLetters letter sober P)
    (hM : M.Lawful I)
    (hlettered : M.Lettered J letter sober) {c c' : κ} {a : α} {data data' : δ} {left : Bool}
    (hc : I c) (hJ : J c)
    (h : push.octet M S c a data = some (c', data', left)) (hP : P data) : P data' := by
  have hturn := octet_turn h
  have hflow := hM.flow c a c' left hc hturn
  have hadvances := hM.advances c a c' left hc hturn
  have hcalls := hlettered.calls c a c' left hJ hturn
  unfold push.octet at h
  rw [hturn] at h
  obtain ⟨mid, hmid, hrest⟩ := Option.bind_eq_some_iff.mp h
  cases left with
  | true =>
    cases hrest
    rw [hM.left c a c' hc hturn] at hflow
    refine hS.eager (.inr ⟨hflow, fun t ht b hb => ?_⟩) hcalls hmid hP
    rw [List.mem_singleton.mp hb]
    exact hlettered.last c a c' hJ hturn t ht
  | false =>
    obtain ⟨last, hlast, ⟨⟩⟩ := Option.map_eq_some_iff.mp hrest
    refine hS.gather ?_ hlast (hS.eager (.inl hadvances) hcalls hmid hP)
    rintro t ht b hb
    rw [List.mem_singleton.mp hb]
    exact hlettered.gathers c a c' hJ hturn t ht

/-- What callbacks keep that are given letters, reading keeps: the states it goes on from are those
    `J` describes. -/
theorem Sink.KeepsLetters.run [DecidableEq τ] {J : κ → Prop} (hS : S.KeepsLetters letter sober P)
    (hM : M.Lawful I)
    (hlettered : M.Lettered J letter sober)
    (hnext : ∀ c a c', I c → J c → (M.turn c 1 a).outcome = .returned (c', false) → J c') {as : List α} {c : κ}
    {data : δ} {r : Reached κ δ} (hc : I c) (hJ : J c) (h : push.run M S as c data = some r) (hP : P data) :
    P r.data := by
  induction as generalizing c data r with
  | nil =>
    cases h
    exact hP
  | cons a as ih =>
    obtain ⟨⟨c', data', left⟩, hoctet, hrest⟩ := Option.bind_eq_some_iff.mp h
    have hturn := octet_turn hoctet
    have hP' := hS.octet hM hlettered hc hJ hoctet hP
    cases left with
    | true =>
      cases hrest
      exact hP'
    | false =>
      obtain ⟨r', hr', rfl⟩ := Option.map_eq_some_iff.mp hrest
      have hdata : P r'.data := ih (hM.kept c a c' false hc hturn) (hnext c a c' hc hJ hturn) hr' hP'
      exact hdata

end

end push
