import Taraxacum.Http.Parser.Control

open json exec push

namespace taraxacum.http.basic_parser_v1

/-- A turn that comes back without an error leaves a parser that is not dead. -/
def Alive (x : Turn (basic_parser_v1 × Bool)) : Prop :=
  ∀ d left, x.outcome = .returned (d, left) → d.s_ ≠ .s_dead

section
variable {c : basic_parser_v1} {x : Turn (basic_parser_v1 × Bool)}

/-- Nothing is said of a turn that ends with an error. -/
theorem Alive.err (ev : parse_error) : Alive (err ev c) := by
  intro d left h
  cases h

/-- A turn that goes on in another state than the dead one. -/
theorem Alive.next {left : Bool} (hs : c.s_ ≠ .s_dead) : Alive (pure (c, left)) := by
  rintro d left ⟨⟩
  exact hs

/-- A turn in two parts goes on where its second part does. -/
theorem Alive.bind {α : Type} {y : Turn α} {f : α → Turn (basic_parser_v1 × Bool)}
    (hf : ∀ a, y.outcome = .returned a → Alive (f a)) : Alive (y >>= f) := by
  intro d left h
  obtain ⟨a, ha, hrest⟩ := Exec.bind_eq_returned_iff.mp h
  exact hf a ha d left hrest

/-- The end of a message leads to no dead state, nor does any turn of the states before it that
    reports no error. -/
theorem alive_complete : Alive (message_complete c) :=
  .bind fun _ _ => .bind fun _ _ => .bind fun _ _ => .next (by simp)

theorem alive_headers_done (isRequest : Bool) : Alive (headers_done isRequest c) := by
  refine .bind fun _ _ => ?_
  split_ifs
  all_goals first
    | exact alive_complete
    | exact .next (by simp)

theorem alive_header_name0 (ch : UInt8) : Alive (header_name0 ch c) := by
  unfold header_name0
  split_ifs
  · exact .next (by simp)
  · exact .err _
  · exact .bind fun _ _ => .bind fun _ _ => .next (by simp)

theorem alive_header_value (ch : UInt8) (hs : c.s_ ≠ .s_dead) : Alive (header_value ch c) := by
  unfold header_value
  split_ifs
  · exact .bind fun _ _ => .next (by simp)
  · exact .err _
  · refine .bind fun d hd => .next ?_
    rwa [((recognises_value_char ch).keeps d hd).2]

theorem alive_start (isRequest : Bool) (ch : UInt8) : Alive (start isRequest ch c) := by
  unfold start req_method0
  dsimp only
  split_ifs
  · exact .err _
  · exact .bind fun _ _ => .bind fun _ _ => .bind fun _ _ => .next (by simp)
  · exact .err _
  · exact .bind fun _ _ => .next (by simp)

theorem alive_body_identity (n : Nat) (hs : c.s_ ≠ .s_dead) : Alive (body_identity n c) := by
  unfold body_identity
  generalize (if n < c.content_length_ then n else c.content_length_) = k
  refine .bind fun _ _ => .bind fun _ _ => ?_
  split
  · exact alive_complete
  · exact .next hs

theorem alive_chunk_data (n : Nat) (hs : c.s_ ≠ .s_dead) : Alive (chunk_data n c) := by
  unfold chunk_data
  generalize (if n < c.content_length_ then n else c.content_length_) = k
  refine .bind fun _ _ => ?_
  split
  · exact .next (by simp)
  · exact .next hs

theorem alive_headers_almost_done (isRequest : Bool) (what : body_what) (ch : UInt8) :
    Alive (headers_almost_done isRequest what ch c) := by
  unfold headers_almost_done
  split_ifs
  · exact .err _
  · exact alive_complete
  · exact .err _
  · refine .bind fun _ _ => ?_
    cases what <;> exact alive_headers_done isRequest

/-- A parser dies only of an error. -/
theorem alive_turn (isRequest : Bool) (what : body_what) (n : Nat) (ch : UInt8) :
    Alive (turn isRequest what c n ch) := by
  rw [turn]
  cases hs : c.s_ <;> dsimp only
  case s_req_start | s_res_start => exact alive_start _ ch
  case s_header_name0 => exact alive_header_name0 ch
  case s_res_line_done => exact .bind fun _ _ => alive_header_name0 ch
  case s_header_value => exact alive_header_value ch (by simp [hs])
  case s_header_name =>
    unfold header_name
    split_ifs
    · refine .bind fun d hd => .next ?_
      simp [((recognises_name_char _).keeps d hd).2, hs]
    · exact .bind fun _ _ => .next (by simp)
    · exact .err _
  case s_header_value0 =>
    unfold header_value0
    split_ifs
    · exact .next (by simp [hs])
    · exact .next (by simp)
    · exact .bind fun _ _ => .bind fun _ _ => alive_header_value ch (by simp)
  case s_header_value0_almost_done =>
    unfold header_value0_almost_done
    split_ifs
    · exact .next (by simp)
    · exact .err _
    · exact .bind fun _ _ => .bind fun _ _ => alive_header_name0 ch
  case s_header_value_almost_done =>
    unfold header_value_almost_done
    split_ifs
    · exact .bind fun _ _ => .next (by simp)
    · exact alive_header_name0 ch
  case s_header_value_unfold => exact .bind fun _ _ => .bind fun _ _ => alive_header_value ch (by simp)
  case s_headers_almost_done => exact alive_headers_almost_done isRequest what ch
  case s_headers_done => exact alive_headers_done isRequest
  case s_complete => exact alive_complete
  case s_body_identity0 => exact .bind fun _ _ => .bind fun _ _ => alive_body_identity n (by simp)
  case s_body_identity => exact alive_body_identity n (by simp [hs])
  case s_chunk_data0 => exact .bind fun _ _ => .bind fun _ _ => alive_chunk_data n (by simp)
  case s_chunk_data => exact alive_chunk_data n (by simp [hs])
  case s_restart =>
    split
    · exact .bind fun _ _ => alive_start _ ch
    · exact .err _
  all_goals
    try simp only [expect, digit, req_method0, chunk_size]
    repeat' first
      | exact .err _
      | exact .next (by simp [hs])
      | refine .bind fun _ _ => ?_
      | split

end

end taraxacum.http.basic_parser_v1
