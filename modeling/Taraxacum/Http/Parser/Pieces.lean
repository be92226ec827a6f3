import Taraxacum.Http.Parser.V1

open json exec push

namespace taraxacum.http

namespace parser_v1

/-- There is room for a piece when there is room for its parts one after the other. -/
theorem room_append (max left : Nat) (s t : Bytes) :
    (max ≠ 0 ∧ (s ++ t).length > left) ↔
      (max ≠ 0 ∧ s.length > left) ∨ (max ≠ 0 ∧ t.length > left - s.length) := by
  rw [List.length_append]
  omega

/-- A counted piece in two parts, for a callback that takes one part after the other and does not
    look at the counter. -/
theorem header_piece_append {on : Bytes → parser_v1 → Outcome parse_error parser_v1} {s t : Bytes}
    (hcount : ∀ (n : Nat) (p q : parser_v1), on s p = .returned q →
      on s { p with h_left_ := n } = .returned { q with h_left_ := n } ∧ q.h_max_ = p.h_max_ ∧
        q.h_left_ = p.h_left_)
    (hfail : ∀ (n : Nat) (p : parser_v1), value? (on s p) = none → value? (on s { p with h_left_ := n }) = none)
    (hon : ∀ p, value? (on (s ++ t) p) = (value? (on s p)).bind fun q => value? (on t q)) (p : parser_v1) :
    value? (header_piece (s ++ t) (on (s ++ t)) p) =
      (value? (header_piece s (on s) p)).bind fun q => value? (header_piece t (on t) q) := by
  unfold header_piece
  simp only [room_append]
  by_cases hs : p.h_max_ ≠ 0 ∧ s.length > p.h_left_
  · rw [if_pos (.inl hs), if_pos hs]
    rfl
  · rw [if_neg hs]
    cases ho : on s p with
    | returned q =>
      obtain ⟨hset, hmax, hleft⟩ := hcount (p.h_left_ - s.length) p q ho
      obtain ⟨hset', -, -⟩ := hcount (p.h_left_ - (s ++ t).length) p q ho
      rw [hset]
      simp only [value?, Option.bind_some, hmax]
      by_cases ht : p.h_max_ ≠ 0 ∧ t.length > p.h_left_ - s.length
      · rw [if_pos (.inr ht), if_pos ht]
      · rw [if_neg (not_or.mpr ⟨hs, ht⟩), if_neg ht]
        have h := hon { p with h_left_ := p.h_left_ - (s ++ t).length }
        rw [hset'] at h
        simpa [value?, List.length_append, Nat.sub_sub, hmax] using h
    | threw | aborted | undefined =>
      have hnone : value? (on s p) = none := by rw [ho]; rfl
      rw [hfail _ p hnone, Option.bind_none]
      split
      · rfl
      · have h := hon { p with h_left_ := p.h_left_ - (s ++ t).length }
        rwa [hfail _ p hnone] at h

/-- A counted piece in two parts that are only appended. -/
theorem header_piece_put {put : Bytes → parser_v1 → parser_v1} {s t : Bytes}
    (hcount : ∀ (n : Nat) (p : parser_v1), put s { p with h_left_ := n } = { put s p with h_left_ := n })
    (hlimits : ∀ p, (put s p).h_max_ = p.h_max_ ∧ (put s p).h_left_ = p.h_left_)
    (hput : ∀ p, put (s ++ t) p = put t (put s p)) (p : parser_v1) :
    value? (header_piece (s ++ t) (fun p => .returned (put (s ++ t) p)) p) =
      (value? (header_piece s (fun p => .returned (put s p)) p)).bind fun q =>
        value? (header_piece t (fun p => .returned (put t p)) q) := by
  refine @header_piece_append (fun s p => .returned (put s p)) s t ?_ ?_ ?_ p
  · rintro n p q ⟨⟩
    exact ⟨congrArg _ (hcount n p), hlimits p⟩
  · intro n p h
    cases h
  · intro p
    simp only [value?, Option.bind_some, hput]

/-- `flush` does not look at what is left for the header. -/
theorem flush_count (n : Nat) (p : parser_v1) :
    flush { p with h_left_ := n } =
      match flush p with
      | .returned q => .returned { q with h_left_ := n }
      | o => o := by
  unfold flush
  by_cases hflush : p.flush_ = true <;> by_cases hfield : p.field_.isEmpty = true <;> simp [hflush, hfield]

/-- After `flush` there is nothing to flush. -/
theorem flush_returned {p q : parser_v1} (h : flush p = .returned q) :
    q.flush_ = false ∧ q.h_max_ = p.h_max_ ∧ q.h_left_ = p.h_left_ := by
  unfold flush at h
  split_ifs at h with hflush hfield <;> cases h
  · exact ⟨by simpa using hflush, rfl, rfl⟩
  · exact ⟨rfl, rfl, rfl⟩

/-- `flush` does nothing where there is nothing to flush. -/
theorem flush_of_flushed {p : parser_v1} (h : p.flush_ = false) : flush p = .returned p := by
  simp [flush, h]

/-- A name may be handed over in two parts. -/
theorem on_field_append (s t : Bytes) (p : parser_v1) :
    value? (on_field (s ++ t) p) = (value? (on_field s p)).bind fun q => value? (on_field t q) := by
  unfold on_field
  cases h : flush p with
  | returned q =>
    have hflushed : flush { q with field_ := q.field_ ++ s } = .returned { q with field_ := q.field_ ++ s } :=
      flush_of_flushed (flush_returned h).1
    simp [value?, hflushed]
  | threw | aborted | undefined => rfl

/-- A piece may be handed over in parts: the pieces are appended, and a limit is exceeded by the
    whole when it is exceeded by its parts. -/
theorem sink_additive (isRequest : Bool) : (sink isRequest).Additive := by
  intro t as bs p
  unfold hand
  by_cases has : as = []
  · simp [has]
  by_cases hbs : bs = []
  · simp [hbs]
  simp only [List.isEmpty_iff, List.append_eq_nil_iff, has, hbs, if_false, false_and, sink]
  cases t with
  | call_on_method =>
    cases isRequest with
    | false => rfl
    | true =>
      let put (s : Bytes) (p : parser_v1) : parser_v1 := { p with method_ := p.method_ ++ s }
      exact @header_piece_put put as bs (fun _ _ => rfl) (fun _ => ⟨rfl, rfl⟩) (fun p => by simp [put]) p
  | call_on_uri =>
    cases isRequest with
    | false => rfl
    | true =>
      let put (s : Bytes) (p : parser_v1) : parser_v1 := { p with uri_ := p.uri_ ++ s }
      exact @header_piece_put put as bs (fun _ _ => rfl) (fun _ => ⟨rfl, rfl⟩) (fun p => by simp [put]) p
  | call_on_reason =>
    cases isRequest with
    | true => rfl
    | false =>
      let put (s : Bytes) (p : parser_v1) : parser_v1 := { p with reason_ := p.reason_ ++ s }
      exact @header_piece_put put as bs (fun _ _ => rfl) (fun _ => ⟨rfl, rfl⟩) (fun p => by simp [put]) p
  | call_on_value =>
    let put (s : Bytes) (p : parser_v1) : parser_v1 := { p with value_ := p.value_ ++ s, flush_ := true }
    exact @header_piece_put put as bs (fun _ _ => rfl) (fun _ => ⟨rfl, rfl⟩) (fun p => by simp [put]) p
  | call_on_field =>
    refine header_piece_append ?_ ?_ (on_field_append as bs) p
    · intro n p q h
      unfold on_field at h ⊢
      rw [flush_count]
      cases hf : flush p with
      | returned r =>
        rw [hf] at h
        cases h
        exact ⟨rfl, (flush_returned hf).2⟩
      | threw | aborted | undefined =>
        rw [hf] at h
        cases h
    · intro n p h
      unfold on_field at h ⊢
      rw [flush_count]
      cases hf : flush p with
      | returned r =>
        rw [hf] at h
        cases h
      | threw | aborted | undefined => rfl
  | call_on_body =>
    simp only [take, call_on_body, room_append]
    by_cases hfirst : p.b_max_ ≠ 0 ∧ as.length > p.b_left_
    · rw [if_pos (.inl hfirst), if_pos hfirst]
      rfl
    · rw [if_neg hfirst]
      simp only [value?, Option.bind_some]
      by_cases hsecond : p.b_max_ ≠ 0 ∧ bs.length > p.b_left_ - as.length
      · rw [if_pos (.inr hsecond), if_pos hsecond]
      · rw [if_neg (not_or.mpr ⟨hfirst, hsecond⟩), if_neg hsecond]
        simp [Nat.sub_sub]

end parser_v1

end taraxacum.http
