import Taraxacum.Http.Parser.StartLine

open json exec push

namespace taraxacum.http

namespace parser_v1

/-- There is room for `n` octets of the body. -/
def BodyRoom (p : parser_v1) (n : Nat) : Prop := p.b_max_ = 0 ∨ n ≤ p.b_left_

/-- The parser once it has taken octets of the body. -/
def taken (p : parser_v1) (s : Bytes) : parser_v1 :=
  { p with b_left_ := p.b_left_ - s.length, m_ := { p.m_ with body := p.m_.body ++ s } }

/-- A part of a body is taken where there is room for it. -/
theorem hand_body {isRequest : Bool} {p : parser_v1} {s : Bytes} (hroom : p.BodyRoom s.length) :
    hand (sink isRequest) .call_on_body s p = some (p.taken s) := by
  cases s with
  | nil => simp [hand, taken]
  | cons a s =>
    change value? (call_on_body (a :: s) p) = _
    rw [call_on_body, if_neg]
    · rfl
    · rintro ⟨hmax, hleft⟩
      rcases hroom with h | h
      · exact hmax h
      · omega

/-- A body has room octet by octet. -/
theorem BodyRoom.tail {p : parser_v1} {a : UInt8} {s : Bytes} (h : p.BodyRoom (a :: s).length) :
    p.BodyRoom [a].length ∧ (p.taken [a]).BodyRoom s.length := by
  simp only [List.length_cons, List.length_nil] at h ⊢
  rcases h with hmax | hleft
  · exact ⟨.inl hmax, .inl hmax⟩
  · refine ⟨.inr (by omega), .inr ?_⟩
    change s.length ≤ p.b_left_ - 1
    omega

/-- Two parts of a body are one. -/
theorem taken_taken (p : parser_v1) (s t : Bytes) : (p.taken s).taken t = p.taken (s ++ t) := by
  simp [taken, Nat.sub_sub]

end parser_v1

namespace basic_parser_v1

/-- Reading `s` ends the message. -/
abbrev Completes (isRequest : Bool) (what : body_what) (s : Bytes) (c : basic_parser_v1) (p : parser_v1)
    (c' : basic_parser_v1) (p' : parser_v1) : Prop :=
  Ends (machine isRequest what) (parser_v1.sink isRequest) s c p c' p'

section
variable {isRequest : Bool} {what : body_what} {c : basic_parser_v1} {p : parser_v1}

/-- The last octet of a body of a length given. -/
theorem turn_identity_last (ch : UInt8) (hs : c.s_ = .s_body_identity) (hcb : c.cb_ = some .call_on_body)
    (hlength : c.content_length_ = 1) :
    turn isRequest what c 1 ch = ⟨[.advance, .piece .call_on_body, .call .on_complete],
      .returned ({ c with content_length_ := 0, cb_ := none, s_ := .s_restart }, true)⟩ := by
  have hstate : turn isRequest what c 1 ch = body_identity (0 + 1) c := by rw [turn, hs]
  rw [hstate, body_identity_eq 0 (by omega) (by rw [hlength]; decide), hlength]
  obtain ⟨content_length_, cb_, s_, fs_, pos_, http_major_, http_minor_, status_code_, flags_, upgrade_⟩ := c
  cases hlength
  cases hcb
  rfl

/-- An octet of such a body that is not the last. -/
theorem turn_identity_more (ch : UInt8) (hs : c.s_ = .s_body_identity) (hlength : 1 < c.content_length_)
    (hmax : c.content_length_ ≠ no_content_length) :
    turn isRequest what c 1 ch = pure ({ c with content_length_ := c.content_length_ - 1 }, false) := by
  have hstate : turn isRequest what c 1 ch = body_identity (0 + 1) c := by rw [turn, hs]
  rw [hstate, body_identity_eq 0 (by omega) hmax, Nat.zero_min]
  exact body_turn_zero (if_neg (Nat.sub_ne_zero_of_lt hlength))

/-- A body of a length given. -/
theorem completes_identity {body : Bytes} (hs : c.s_ = .s_body_identity) (hcb : c.cb_ = some .call_on_body)
    (hne : body ≠ []) (hlength : c.content_length_ = body.length) (hmax : body.length < no_content_length)
    (hroom : p.BodyRoom body.length) :
    Completes isRequest what body c p { c with content_length_ := 0, cb_ := none, s_ := .s_restart }
      (p.taken body) := by
  induction body generalizing c p with
  | nil => exact absurd rfl hne
  | cons ch s ih =>
    obtain ⟨hfirst, hrest⟩ := hroom.tail
    have hhand : gather (parser_v1.sink isRequest) c.cb_ [ch] p = some (p.taken [ch]) := by
      rw [hcb]
      exact parser_v1.hand_body hfirst
    cases s with
    | nil =>
      have hturn := @turn_identity_last isRequest what c ch hs hcb hlength
      refine .octet (octet_last hturn ?_)
      change (gather (parser_v1.sink isRequest) c.cb_ [ch] p).bind _ = _
      rw [hhand]
      rfl
    | cons ch' s =>
      have hmore : 1 < c.content_length_ := by
        rw [hlength, List.length_cons, List.length_cons]
        omega
      have hturn := @turn_identity_more isRequest what c ch hs hmore (by rw [hlength]; exact Nat.ne_of_lt hmax)
      have hnext := @ih { c with content_length_ := c.content_length_ - 1 } (p.taken [ch]) hs hcb (by simp)
        (by dsimp only; rw [hlength]; rfl) (by rw [List.length_cons] at hmax; omega) hrest
      rw [parser_v1.taken_taken] at hnext
      exact .cons (octet_eq hturn rfl hhand) hnext

/-- A body begins, and its first octet is read as the others are. -/
theorem octet_body {next : state} (ch : UInt8)
    (hturn : turn isRequest what c 1 ch = ⟨.begin .call_on_body ::
      (turn isRequest what { c with cb_ := some .call_on_body, s_ := next } 1 ch).events,
        (turn isRequest what { c with cb_ := some .call_on_body, s_ := next } 1 ch).outcome⟩) :
    push.octet (machine isRequest what) (parser_v1.sink isRequest) c ch p =
      push.octet (machine isRequest what) (parser_v1.sink isRequest)
        { c with cb_ := some .call_on_body, s_ := next } ch p :=
  octet_begin hturn rfl

/-- A body of a length given, from where the header ends. -/
theorem completes_identity0 {body : Bytes} (hs : c.s_ = .s_body_identity0) (hcb : c.cb_ = none)
    (hne : body ≠ []) (hlength : c.content_length_ = body.length) (hmax : body.length < no_content_length)
    (hroom : p.BodyRoom body.length) :
    Completes isRequest what body c p { c with content_length_ := 0, cb_ := none, s_ := .s_restart }
      (p.taken body) := by
  have hbody := @completes_identity isRequest what
    { c with cb_ := some .call_on_body, s_ := .s_body_identity } p body
    rfl rfl hne hlength hmax hroom
  obtain ⟨ch, s, rfl⟩ := List.exists_cons_of_ne_nil hne
  have hturn : turn isRequest what c 1 ch = ⟨.begin .call_on_body ::
      (turn isRequest what { c with cb_ := some .call_on_body, s_ := .s_body_identity } 1 ch).events,
        (turn isRequest what { c with cb_ := some .call_on_body, s_ := .s_body_identity } 1 ch).outcome⟩ := by
    rw [turn, hs]
    dsimp only
    rw [hcb, cb_some hcb]
    rfl
  rw [Completes, Ends] at hbody ⊢
  rwa [run_same (octet_body ch hturn)]

/-- The octets of a chunk. -/
theorem quiet_chunk {data : Bytes} (hs : c.s_ = .s_chunk_data) (hcb : c.cb_ = some .call_on_body)
    (hne : data ≠ [])
    (hlength : c.content_length_ = data.length) :
    Quiet (machine isRequest what) (some .call_on_body) data c
      { c with content_length_ := 0, s_ := .s_chunk_data_cr } := by
  induction data generalizing c with
  | nil => exact absurd rfl hne
  | cons ch s ih =>
    have hstate : turn isRequest what c 1 ch = chunk_data (0 + 1) c := by rw [turn, hs]
    have hpos : 0 < c.content_length_ := by
      rw [hlength, List.length_cons]
      omega
    have hdata := chunk_data_eq 0 hpos
    rw [Nat.zero_min] at hdata
    cases s with
    | nil =>
      have hlast : c.content_length_ - 1 = 0 := by
        rw [hlength]
        rfl
      have hturn : turn isRequest what c 1 ch =
          pure ({ c with content_length_ := 0, s_ := .s_chunk_data_cr }, false) := by
        have hafter : chunk_after { c with content_length_ := c.content_length_ - 1 } =
            pure ({ c with content_length_ := 0, s_ := .s_chunk_data_cr }, false) := by
          rw [chunk_after, if_pos hlast, hlast]
        rw [hstate, hdata]
        exact body_turn_zero hafter
      exact .one hturn hcb
    | cons ch' s =>
      have hturn : turn isRequest what c 1 ch =
        pure ({ c with content_length_ := c.content_length_ - 1 }, false) := by
        rw [hstate, hdata]
        refine body_turn_zero (if_neg ?_)
        dsimp only
        rw [hlength, List.length_cons, List.length_cons]
        omega
      refine .cons hturn hcb (@ih { c with content_length_ := c.content_length_ - 1 } hs hcb (by simp) ?_)
      dsimp only
      rw [hlength]
      rfl

/-- The size of a chunk, and the CR after it. -/
theorem reads_size {n : Nat} (hs : c.s_ = .s_chunk_size0) (hcb : c.cb_ = none) (hn : n < 18446744073709551600) :
    Reads isRequest what (hex.text n ++ [0x0D]) c p
      { c with content_length_ := n, s_ := .s_chunk_size_lf } p := by
  have hsize : Reads isRequest what (hex.text n) c p { c with content_length_ := n, s_ := .s_chunk_size } p :=
    (quiet_hex isRequest what hn hs hcb).leads (parser_v1.sink_additive isRequest) rfl
  have hgather : gather (parser_v1.sink isRequest) c.cb_ [0x0D] p = some p := by
    rw [hcb]
    rfl
  exact hsize.append (.octet (octet_eq rfl rfl hgather))

/-- One chunk. -/
theorem reads_chunk {data : Bytes} (hs : c.s_ = .s_chunk_size0) (hcb : c.cb_ = none) (hne : data ≠ [])
    (hmax : data.length < 18446744073709551600) (hroom : p.BodyRoom data.length) :
    Reads isRequest what (chunk_encode false data) c p
      { c with content_length_ := 0, cb_ := none, s_ := .s_chunk_size0 } (p.taken data) := by
  have hsize := @reads_size isRequest what c p data.length hs hcb hmax
  have hlf : Reads isRequest what [0x0A] { c with content_length_ := data.length, s_ := .s_chunk_size_lf } p
      { c with content_length_ := data.length, cb_ := none, s_ := .s_chunk_data0 } p := by
    have hturn : turn isRequest what { c with content_length_ := data.length, s_ := .s_chunk_size_lf } 1 0x0A =
        pure ({ c with content_length_ := data.length, cb_ := none, s_ := .s_chunk_data0 }, false) := by
      change (if data.length = 0 then _ else _ : Turn (basic_parser_v1 × Bool)) = _
      rw [if_neg (by simpa using hne), ← hcb]
    exact .octet (octet_eq hturn rfl rfl)
  set c₁ : basic_parser_v1 :=
    { c with content_length_ := data.length, cb_ := some .call_on_body, s_ := .s_chunk_data } with hc₁
  have hdata : Reads isRequest what data
    { c with content_length_ := data.length, cb_ := none, s_ := .s_chunk_data0 } p
      { c₁ with content_length_ := 0, s_ := .s_chunk_data_cr } (p.taken data) := by
    have hquiet := @quiet_chunk isRequest what c₁ data rfl rfl hne rfl
    have hreads : Reads isRequest what data c₁ p
      { c₁ with content_length_ := 0, s_ := .s_chunk_data_cr } (p.taken data) :=
      hquiet.leads (parser_v1.sink_additive isRequest) (parser_v1.hand_body hroom)
    obtain ⟨ch, s, rfl⟩ := List.exists_cons_of_ne_nil hne
    rw [Reads, Leads] at hreads ⊢
    rw [← hreads]
    exact run_same (octet_begin rfl rfl) s
  have hend : Reads isRequest what crlf { c₁ with content_length_ := 0, s_ := .s_chunk_data_cr } (p.taken data)
      { c with content_length_ := 0, cb_ := none, s_ := .s_chunk_size0 } (p.taken data) :=
    .cons (octet_eq rfl rfl rfl) (.octet (octet_eq rfl rfl rfl))
  have hchunk : chunk_encode false data = hex.text data.length ++ [0x0D] ++ [0x0A] ++ data ++ crlf := by
    have hcrlf : crlf = [0x0D] ++ [0x0A] := rfl
    rw [chunk_encode, chunk_encode_delim, hcrlf]
    simp
  rw [hchunk]
  exact ((hsize.append hlf).append hdata).append hend

/-- The last chunk, which is empty, and the empty line after it. -/
theorem completes_last_chunk (hs : c.s_ = .s_chunk_size0) (hcb : c.cb_ = none) :
    Completes isRequest what chunk_encode_final c p
      { c with
        content_length_ := 0, flags_ := { c.flags_ with trailing := true }, cb_ := none,
          s_ := .s_restart } p := by
  obtain ⟨content_length_, cb_, s_, fs_, pos_, http_major_, http_minor_, status_code_, flags_, upgrade_⟩ := c
  obtain rfl : s_ = .s_chunk_size0 := hs
  obtain rfl : cb_ = none := hcb
  rfl

/-- A body in chunks, none of them empty. -/
theorem completes_chunks {chunks : List Bytes} (hs : c.s_ = .s_chunk_size0) (hcb : c.cb_ = none)
    (hchunks : ∀ data ∈ chunks, data ≠ [] ∧ data.length < 18446744073709551600)
    (hroom : p.BodyRoom chunks.flatten.length) :
    Completes isRequest what (chunks.flatMap (chunk_encode false) ++ chunk_encode_final) c p
      { c with
        content_length_ := 0, flags_ := { c.flags_ with trailing := true }, cb_ := none, s_ := .s_restart }
      (p.taken chunks.flatten) := by
  induction chunks generalizing c p with
  | nil =>
    have hnothing : p.taken [] = p := by simp [parser_v1.taken]
    rw [List.flatten_nil, hnothing]
    exact completes_last_chunk hs hcb
  | cons data chunks ih =>
    obtain ⟨⟨hne, hmax⟩, hchunks⟩ := List.forall_mem_cons.mp hchunks
    have hsplit : p.BodyRoom data.length ∧ (p.taken data).BodyRoom chunks.flatten.length := by
      rw [List.flatten_cons, List.length_append] at hroom
      rcases hroom with hmax | hleft
      · exact ⟨.inl hmax, .inl hmax⟩
      · refine ⟨.inr (by omega), .inr ?_⟩
        change chunks.flatten.length ≤ p.b_left_ - data.length
        omega
    have hfirst := @reads_chunk isRequest what c p data hs hcb hne hmax hsplit.1
    have hrest := @ih { c with content_length_ := 0, cb_ := none, s_ := .s_chunk_size0 }
      (p.taken data) rfl rfl hchunks
      hsplit.2
    rw [parser_v1.taken_taken] at hrest
    rw [List.flatMap_cons, List.append_assoc, List.flatten_cons]
    exact hfirst.ends hrest

end

end basic_parser_v1

end taraxacum.http
