import Taraxacum.Http.Parser.Delivery
import Taraxacum.Http.Parser.Letters

open json exec push

namespace taraxacum.http

namespace parser_v1

/-- The octets of the header that are kept, in the message or for it. -/
def kept (p : parser_v1) : Nat :=
  p.method_.length + p.uri_.length + p.reason_.length + p.field_.length + p.value_.length +
    (p.m_.method.length + p.m_.url.length + p.m_.reason.length + p.m_.fields.size)

/-- What is kept and what may still come are together within the limits. -/
structure Limited (p : parser_v1) : Prop where
  header : p.h_max_ ≠ 0 → p.kept + p.h_left_ ≤ p.h_max_
  body : p.b_max_ ≠ 0 → p.m_.body.length + p.b_left_ ≤ p.b_max_

/-- A step after which at most `n` more octets of the header are kept, and which changes nothing else
    that counts. -/
structure Grows (n : Nat) (p q : parser_v1) : Prop where
  kept : q.kept ≤ p.kept + n
  h_max : q.h_max_ = p.h_max_
  h_left : q.h_left_ = p.h_left_
  b_max : q.b_max_ = p.b_max_
  b_left : q.b_left_ = p.b_left_
  body : q.m_.body = p.m_.body

section
variable {p q r : parser_v1} {s : Bytes}

/-- Octets that are kept in two steps add up. -/
theorem Grows.trans {n : Nat} (hpq : Grows 0 p q) (hqr : Grows n q r) : Grows n p r where
  kept := by
    have h₁ := hpq.kept
    have h₂ := hqr.kept
    omega
  h_max := hqr.h_max.trans hpq.h_max
  h_left := hqr.h_left.trans hpq.h_left
  b_max := hqr.b_max.trans hpq.b_max
  b_left := hqr.b_left.trans hpq.b_left
  body := hqr.body.trans hpq.body

/-- A step that keeps no more octets stays within the limits. -/
theorem Grows.limited (h : Grows 0 p q) (hp : p.Limited) : q.Limited := by
  refine ⟨fun hmax => ?_, fun hmax => ?_⟩
  · rw [h.h_max] at hmax ⊢
    have hkept := h.kept
    have hheader := hp.header hmax
    rw [h.h_left]
    omega
  · rw [h.b_max] at hmax ⊢
    rw [h.b_left, h.body]
    exact hp.body hmax

/-- Storing a field keeps what was kept before, or less of it. -/
theorem flush_grows (h : flush p = .returned q) : Grows 0 p q := by
  unfold flush at h
  split_ifs at h with hflush hfield
  · cases h
    exact ⟨Nat.le_refl _, rfl, rfl, rfl, rfl, rfl⟩
  · cases h
    have hsize : Fields.size (p.m_.fields.insert p.field_ p.value_) ≤
        p.m_.fields.size + (p.field_.length + p.value_.length) :=
          Fields.size_insert (Nat.le_refl _) (Nat.le_refl _)
    refine ⟨?_, rfl, rfl, rfl, rfl, rfl⟩
    simp only [parser_v1.kept, List.length_nil]
    omega

/-- What a piece of the header adds is taken from what may still come. -/
theorem header_piece_limited {on : parser_v1 → Outcome parse_error parser_v1}
    (hon : ∀ p : parser_v1, on p = .returned q → Grows s.length p q) (hp : p.Limited)
    (h : header_piece s on p = .returned q) : q.Limited := by
  unfold header_piece at h
  split_ifs at h with hroom
  have hgrows := hon _ h
  refine ⟨fun hmax => ?_, fun hmax => ?_⟩
  · rw [hgrows.h_max] at hmax ⊢
    have hheader := hp.header hmax
    have hkept := hgrows.kept
    have hleft := hgrows.h_left
    have hfits : s.length ≤ p.h_left_ := by
      by_contra hnot
      exact hroom ⟨hmax, by omega⟩
    change q.kept ≤ p.kept + s.length at hkept
    dsimp only at hleft ⊢
    omega
  · rw [hgrows.b_max] at hmax ⊢
    rw [hgrows.b_left, hgrows.body]
    exact hp.body hmax

/-- A value is counted as it grows, and refused when there is no room. -/
theorem value_limited (hp : p.Limited) (h : call_on_value s p = .returned q) : q.Limited := by
  refine header_piece_limited (fun p h => ?_) hp h
  cases h
  refine ⟨?_, rfl, rfl, rfl, rfl, rfl⟩
  simp only [parser_v1.kept, List.length_append]
  omega

/-- Every piece of the header is counted against the limit of the header, and the body against its
    own. -/
theorem take_limited {isRequest : Bool} {t : pmf_t} (hp : p.Limited) (h : take isRequest t s p = .returned q) :
    q.Limited := by
  cases t with
  | call_on_method | call_on_uri | call_on_reason =>
    rw [take] at h
    split_ifs at h
    · first
      | refine header_piece_limited (fun p h => ?_) hp h
        cases h
        refine ⟨?_, rfl, rfl, rfl, rfl, rfl⟩
        simp only [parser_v1.kept, List.length_append]
        omega
      | cases h
        exact hp
    · first
      | refine header_piece_limited (fun p h => ?_) hp h
        cases h
        refine ⟨?_, rfl, rfl, rfl, rfl, rfl⟩
        simp only [parser_v1.kept, List.length_append]
        omega
      | cases h
        exact hp
  | call_on_field =>
    refine header_piece_limited (fun p h => ?_) hp h
    rw [on_field] at h
    cases hflush : flush p with
    | returned p' =>
      rw [hflush] at h
      cases h
      refine (flush_grows hflush).trans ⟨?_, rfl, rfl, rfl, rfl, rfl⟩
      simp only [parser_v1.kept, List.length_append]
      omega
    | threw | aborted | undefined =>
      rw [hflush] at h
      cases h
  | call_on_value => exact value_limited hp h
  | call_on_body =>
    rw [take, call_on_body] at h
    split_ifs at h with hroom
    cases h
    refine ⟨hp.header, fun hmax => ?_⟩
    have hbody := hp.body hmax
    have hfits : s.length ≤ p.b_left_ := by
      by_contra hnot
      exact hroom ⟨hmax, by omega⟩
    simp only [List.length_append]
    omega

/-- No other callback keeps octets. -/
theorem call_limited {isRequest : Bool} {g : callback} (hg : basic_parser_v1.Sober False g) (hp : p.Limited)
    (h : call isRequest g p = .returned q) : q.Limited := by
  cases g with
  | on_start | on_complete =>
    cases h
    exact hp
  | reset => exact hg.elim
  | on_request | on_response =>
    rw [call] at h
    split_ifs at h <;> cases h
    · first
      | exact hp
      | refine Grows.limited (p := p) ⟨?_, rfl, rfl, rfl, rfl, rfl⟩ hp
        simp only [parser_v1.kept, List.length_nil]
        omega
    · first
      | exact hp
      | refine Grows.limited (p := p) ⟨?_, rfl, rfl, rfl, rfl, rfl⟩ hp
        simp only [parser_v1.kept, List.length_nil]
        omega
  | on_header http_major http_minor =>
    rw [call] at h
    cases hflush : flush p with
    | returned p' =>
      rw [hflush] at h
      cases h
      exact Grows.limited (p := p') ⟨Nat.le_refl _, rfl, rfl, rfl, rfl, rfl⟩ ((flush_grows hflush).limited hp)
    | threw | aborted | undefined =>
      rw [hflush] at h
      cases h
  | on_value s => exact value_limited hp h

end

/-- The sink keeps a message within the limits, whatever the machine hands over. -/
theorem keepsLimits (isRequest : Bool) :
    (sink isRequest).KeepsLetters basic_parser_v1.Letter (basic_parser_v1.Sober False) Limited where
  take _ _ _ _ _ hp h := take_limited hp h
  call _ _ _ hg hp h := call_limited hg hp h

end parser_v1

namespace Parser

variable {isRequest : Bool}

/-- Reading one message keeps within the limits. -/
theorem run_limited {p : Parser} {s : Bytes} {r : Reached basic_parser_v1 parser_v1} (hp : p.Reading)
    (hlimited : p.derived.Limited) (h : p.run isRequest s = some r) : r.data.Limited := by
  have hrestart : ∀ c : basic_parser_v1, c.complete = false → c.s_ ≠ .s_restart := by
    intro c hc hs
    simp [basic_parser_v1.complete, hs] at hc
  refine (parser_v1.keepsLimits isRequest).run (basic_parser_v1.lawful isRequest _)
    (basic_parser_v1.lettered isRequest _)
    ?_ hp.sound ⟨hp.sound, fun hs => hrestart p.base hp.incomplete hs⟩ h hlimited
  intro c ch c' hc _ hturn
  have hkept := (basic_parser_v1.lawful isRequest _).kept c ch c' false hc hturn
  have hleft := (basic_parser_v1.flows_turn isRequest _ ch hc.gathers c' false hturn).2.2.2
  exact ⟨hkept, fun hs => hrestart c' hleft.symm hs⟩

/-- The end of the stream changes nothing of the message. -/
theorem atEnd_message {p : Parser} {got_some : Bool} {what : Option Bytes} {msg : Message} {rest : Bytes}
    (h : p.atEnd got_some what = some (msg, rest)) : p.derived.m_ = msg := by
  cases what with
  | some what => cases h
  | none =>
    rw [atEnd, parse.last] at h
    split at h
    · cases h
    · split at h
      · cases h
      · rename_i hend
        split at h
        · rw [write_eof] at hend
          split at hend <;> cases hend <;> exact (Prod.mk.inj (Option.some.inj h)).1
        · cases h

/-- An empty message is within the limits. -/
theorem new_limited (isRequest : Bool) : (new isRequest).derived.Limited := by
  cases isRequest <;> refine ⟨fun _ => ?_, fun _ => ?_⟩ <;> simp [new, create, parser_v1.kept, Fields.size]

/-- A message that is read from one buffer after the other is within the limits, whatever the stream brings. -/
theorem read_fits (isRequest : Bool) (what : Option Bytes) {reads : List Bytes} {msg : Message} {rest : Bytes}
    (hreads : [] ∉ reads)
    (h : (read isRequest what (reads.map fun buffer => [buffer])).result = some (msg, rest)) :
      msg.Fits isRequest := by
  rw [read_result_single hreads] at h
  obtain ⟨r, hr, hresult⟩ := Option.bind_eq_some_iff.mp h
  have hm : r.data.m_ = msg := by
    split_ifs at hresult
    · exact (Prod.mk.inj (Option.some.inj hresult)).1
    · exact atEnd_message hresult
  have hlimited := run_limited (new_reading isRequest) (new_limited isRequest) hr
  have hoptions := run_options hr
  have hheader := hlimited.header
  have hbody := hlimited.body
  rw [hoptions.h_max] at hheader
  rw [hoptions.b_max] at hbody
  rw [← hm]
  constructor
  · have hkept := hheader (by simp [new, create])
    have hlimit : (new isRequest).derived.h_max_ = 16 * 1024 := rfl
    rw [parser_v1.kept, hlimit] at hkept
    omega
  · rintro rfl
    have hlimit : (new true).derived.b_max_ = 4 * 1024 * 1024 := rfl
    rw [hlimit] at hbody
    have hsize := hbody (by decide)
    omega

/-- A short request is within the limits. -/
theorem read_fits_one : Message.Fits true { version := 11, method := lit "GET", url := lit "/" } :=
  @read_fits true none [lit "GET / HTTP/1.1\r\n\r\n"] _ [] (by decide) (by decide +kernel)

end Parser

end taraxacum.http
