import Taraxacum.Http.Parser.Parse
import Taraxacum.Http.Parser.Pieces

open json exec push

namespace taraxacum.http

namespace parser_v1

/-- The options of `q` are those of `p`. -/
structure SameOptions (p q : parser_v1) : Prop where
  skip_body : q.skip_body_ = p.skip_body_
  h_max : q.h_max_ = p.h_max_
  b_max : q.b_max_ = p.b_max_

/-- `flush` changes no option. -/
theorem flush_options {p q : parser_v1} (h : flush p = .returned q) : SameOptions p q := by
  unfold flush at h
  split_ifs at h <;> cases h <;> exact ⟨rfl, rfl, rfl⟩

theorem header_piece_options {s : Bytes} {on : parser_v1 → Outcome parse_error parser_v1} {p q : parser_v1}
    (hon : ∀ p q, on p = .returned q → SameOptions p q) (h : header_piece s on p = .returned q) :
    SameOptions p q := by
  unfold header_piece at h
  split_ifs at h
  obtain ⟨hskip, hhmax, hbmax⟩ := hon _ q h
  exact ⟨hskip, hhmax, hbmax⟩

theorem call_on_value_options {s : Bytes} {p q : parser_v1} (h : call_on_value s p = .returned q) :
    SameOptions p q := by
  apply header_piece_options _ h
  rintro p q ⟨⟩
  exact ⟨rfl, rfl, rfl⟩

/-- Nothing that is read changes the options. -/
theorem take_options {isRequest : Bool} {t : pmf_t} {s : Bytes} {p q : parser_v1}
    (h : take isRequest t s p = .returned q) : SameOptions p q := by
  cases t with
  | call_on_method | call_on_uri | call_on_reason =>
    simp only [take] at h
    split_ifs at h
    all_goals first
      | (cases h; exact ⟨rfl, rfl, rfl⟩)
      | (apply header_piece_options _ h
         rintro p q ⟨⟩
         exact ⟨rfl, rfl, rfl⟩)
  | call_on_field =>
    apply header_piece_options _ h
    intro p q h
    unfold on_field at h
    cases hf : flush p with
    | returned r =>
      rw [hf] at h
      cases h
      obtain ⟨hskip, hhmax, hbmax⟩ := flush_options hf
      exact ⟨hskip, hhmax, hbmax⟩
    | threw | aborted | undefined =>
      rw [hf] at h
      cases h
  | call_on_value => exact call_on_value_options h
  | call_on_body =>
    simp only [take, call_on_body] at h
    split_ifs at h
    cases h
    exact ⟨rfl, rfl, rfl⟩

theorem call_options {isRequest : Bool} {g : callback} {p q : parser_v1}
    (h : call isRequest g p = .returned q) : SameOptions p q := by
  cases g with
  | on_start | on_complete | reset =>
    cases h
    exact ⟨rfl, rfl, rfl⟩
  | on_request | on_response =>
    cases isRequest <;> cases h <;> exact ⟨rfl, rfl, rfl⟩
  | on_header =>
    simp only [call] at h
    cases hf : flush p with
    | returned r =>
      rw [hf] at h
      cases h
      obtain ⟨hskip, hhmax, hbmax⟩ := flush_options hf
      exact ⟨hskip, hhmax, hbmax⟩
    | threw | aborted | undefined =>
      rw [hf] at h
      cases h
  | on_value => exact call_on_value_options h

/-- Options that stay the same twice stay the same. -/
theorem SameOptions.trans {p q r : parser_v1} (hpq : SameOptions p q) (hqr : SameOptions q r) :
    SameOptions p r :=
  ⟨hqr.skip_body.trans hpq.skip_body, hqr.h_max.trans hpq.h_max, hqr.b_max.trans hpq.b_max⟩

/-- No run changes the limits and the options that the parser was made with. -/
theorem keeps_options (isRequest : Bool) (p : parser_v1) : (sink isRequest).Keeps (SameOptions p) where
  take _ _ _ _ hp h := hp.trans (take_options h)
  call _ _ _ hp h := hp.trans (call_options h)

end parser_v1

namespace Parser

variable {isRequest : Bool} {p : Parser}

/-- What is reached octet by octet. -/
def run (isRequest : Bool) (p : Parser) (s : Bytes) : Option (Reached basic_parser_v1 parser_v1) :=
  push.run (basic_parser_v1.machine isRequest p.derived.on_body_what) (parser_v1.sink isRequest) s p.base
    p.derived

def reached (r : Reached basic_parser_v1 parser_v1) : Parser := ⟨r.control, r.data⟩

/-- A parser that is in the middle of a message, or has not seen the first octet of it. -/
structure Reading (p : Parser) : Prop where
  sound : p.base.Sound
  incomplete : p.base.complete = false

/-- A buffer that is written in one go is read octet by octet. -/
theorem write_success (hp : p.base.Sound) {buffer : Bytes} (hbuffer : buffer ≠ []) :
    (p.write isRequest buffer).success = (p.run isRequest buffer).map fun r => (r.control, r.data, r.used) := by
  have hempty : buffer.isEmpty = false := by simpa using hbuffer
  rw [write, hempty, Bool.false_and, if_neg Bool.false_ne_true]
  exact push.write_success (basic_parser_v1.lawful isRequest _) (parser_v1.sink_additive isRequest) hp hbuffer

/-- A run leaves a sound parser. -/
theorem run_sound {s : Bytes} {r : Reached basic_parser_v1 parser_v1} (h : p.run isRequest s = some r)
    (hp : p.base.Sound) : r.control.Sound := by
  refine run_invariant (J := fun c _ => c.Sound) ?_ h hp
  intro c a data c' data' left hc hoctet
  exact (basic_parser_v1.lawful isRequest _).kept c a c' left hc (octet_turn hoctet)

/-- A run leaves the options of the parser as they were. -/
theorem run_options {s : Bytes} {r : Reached basic_parser_v1 parser_v1} (h : p.run isRequest s = some r) :
    p.derived.SameOptions r.data :=
  (parser_v1.keeps_options isRequest p.derived).run h ⟨rfl, rfl, rfl⟩

/-- Reading ends with the octet that makes the message complete, and only there. -/
theorem run_left {s : Bytes} {r : Reached basic_parser_v1 parser_v1} (h : p.run isRequest s = some r)
    (hp : p.Reading) : r.left = r.control.complete := by
  refine push.run_left (I := basic_parser_v1.Sound) ?_ h hp.sound hp.incomplete
  intro c a data c' data' left hc hoctet
  have hturn := octet_turn hoctet
  have hkept := (basic_parser_v1.lawful isRequest _).kept c a c' left hc hturn
  exact ⟨hkept, (basic_parser_v1.flows_turn isRequest _ a hc.gathers c' left hturn).2.2.2⟩

/-- What has been reached, if it is not the end, is a parser that reads on. -/
theorem run_reading {s : Bytes} {r : Reached basic_parser_v1 parser_v1} (h : p.run isRequest s = some r)
    (hp : p.Reading) (hleft : r.left = false) : (reached r).Reading :=
  ⟨run_sound h hp.sound, by rw [← hleft, run_left h hp]; rfl⟩

/-- Two buffers are read as one, unless the message ended in the first. -/
theorem run_append (s t : Bytes) : p.run isRequest (s ++ t) = (p.run isRequest s).bind fun r =>
    if r.left then some r else ((reached r).run isRequest t).map (·.after r.used) := by
  rw [run, push.run_append]
  change (p.run isRequest s).bind _ = _
  cases h : p.run isRequest s with
  | none => rfl
  | some r =>
    have hwhat : r.data.on_body_what = p.derived.on_body_what := by
      rw [parser_v1.on_body_what, (run_options h).skip_body]
      rfl
    simp only [Option.bind_some, run, reached, hwhat]

/-- A message takes one octet at least. -/
theorem used_pos {s : Bytes} {r : Reached basic_parser_v1 parser_v1} (h : p.run isRequest s = some r)
    (hleft : r.left = true) : 0 < r.used := by
  cases s with
  | nil =>
    cases h
    cases hleft
  | cons a as =>
    obtain ⟨⟨c', data', left⟩, -, hrest⟩ := Option.bind_eq_some_iff.mp h
    cases left with
    | true =>
      cases hrest
      exact Nat.one_pos
    | false =>
      obtain ⟨r', -, rfl⟩ := Option.map_eq_some_iff.mp hrest
      exact Nat.lt_of_lt_of_le Nat.one_pos (Nat.le_add_right 1 _)

/-- A sequence of buffers, none of them empty, is read as one if the message does not end before
    the last of them. -/
theorem writeAll_success {buffers : List Bytes} (hp : p.Reading) (hbuffers : [] ∉ buffers)
    (hend : ∀ r, p.run isRequest buffers.flatten = some r → r.left = true →
      buffers.dropLast.flatten.length < r.used) :
    (p.writeAll isRequest buffers).success =
      (p.run isRequest buffers.flatten).map fun r => (r.control, r.data, r.used) := by
  induction buffers generalizing p with
  | nil => rfl
  | cons buffer buffers ih =>
    obtain ⟨hbuffer, hbuffers⟩ : buffer ≠ [] ∧ [] ∉ buffers := by
      simpa [eq_comm] using hbuffers
    have hwrite := @write_success isRequest p hp.sound buffer hbuffer
    rw [List.flatten_cons, run_append] at hend ⊢
    cases hrun : p.run isRequest buffer with
    | none =>
      rw [hrun] at hwrite
      rw [writeAll]
      cases hw : p.write isRequest buffer with
      | returned base derived used ec =>
        rw [hw] at hwrite
        cases ec with
        | none => cases hwrite
        | some e => rfl
      | aborted | undefined => rfl
    | some r =>
      rw [hrun] at hwrite hend
      have hused := run_used hrun
      simp only [writeAll, Written.success_eq_some.mp hwrite, Option.bind_some, Written.success_after] at hend ⊢
      cases hleft : r.left with
      | true =>
        -- The message has ended with this buffer, so it was the last one.
        have hlast := hend r (by rw [hleft]; rfl) hleft
        cases buffers with
        | nil => simp [writeAll, Written.success]
        | cons next rest =>
          rw [List.dropLast_cons_cons, List.flatten_cons, List.length_append] at hlast
          omega
      | false =>
        have hread := hused.2 hleft
        rw [hleft] at hend
        have hnext := @ih (reached r) (run_reading hrun hp hleft) hbuffers fun r' hr' hleft' => by
          have hlast := hend (r'.after r.used) (by simp [hr']) hleft'
          cases buffers with
          | nil => exact used_pos hr' hleft'
          | cons next rest =>
            simp only [List.dropLast_cons_cons, List.flatten_cons, List.length_append, Reached.after] at hlast
            omega
        change Option.map _ (writeAll isRequest (reached r) buffers).success = _
        rw [hnext]
        cases (reached r).run isRequest buffers.flatten <;> rfl

end Parser

end taraxacum.http
