import Taraxacum.Http.Parser.Control

open json exec push

namespace taraxacum.http.basic_parser_v1

/-- How far `pos_` gets while a string is being matched. -/
def limit : field_state → Option Nat
  | .h_matching_connection => some (parser_str.connection.length - 3)
  | .h_matching_proxy_connection => some (parser_str.proxy_connection.length - 3)
  | .h_matching_content_length => some (parser_str.content_length.length - 3)
  | .h_matching_transfer_encoding => some (parser_str.transfer_encoding.length - 3)
  | .h_matching_upgrade | .h_matching_connection_upgrade => some (parser_str.upgrade.length - 3)
  | .h_matching_transfer_encoding_chunked => some (parser_str.chunked.length - 3)
  | .h_matching_connection_keep_alive => some (parser_str.keep_alive.length - 3)
  | .h_matching_connection_close => some (parser_str.close.length - 3)
  | .h_C => some 0
  | .h_CO => some 1
  | .h_CON => some 2
  | _ => none

/-- What holds of the numbers in every state. -/
structure Bounded (c : basic_parser_v1) : Prop where
  length : c.content_length_ ≤ no_content_length
  pos : ∀ k, limit c.fs_ = some k → c.pos_ ≤ k

/-- The length a body that is being read still has. -/
def Remaining : state → Nat → Prop
  | .s_body_identity0 | .s_body_identity => fun n => 0 < n ∧ n ≠ no_content_length
  | .s_chunk_data0 | .s_chunk_data => fun n => 0 < n
  | _ => fun _ => True

structure Sound (c : basic_parser_v1) : Prop where
  gathers : c.Gathers
  bounded : c.Bounded
  remaining : Remaining c.s_ c.content_length_

/-- The turn fails no assertion, reads no string outside its bounds and leads to a sound state. -/
def Safe (x : Turn (basic_parser_v1 × Bool)) : Prop :=
  match x.outcome with
  | .returned (c, _) => c.Sound
  | .threw (_, c) => c.Sound
  | .aborted | .undefined => False

/-- A state is sound if its numbers are in bounds and what it gathers and still has to read fits
    where it is. -/
theorem Bounded.sound {c : basic_parser_v1} (hc : c.Bounded) (hgathers : c.cb_ = collects c.s_)
    (hremaining : Remaining c.s_ c.content_length_) : c.Sound :=
  ⟨.inr hgathers, hc, hremaining⟩

section
variable {c : basic_parser_v1} {x : Turn (basic_parser_v1 × Bool)}

/-- An error leaves a dead parser, which is sound with numbers in bounds. -/
theorem Safe.err (ev : parse_error) (hc : c.Bounded) : Safe (err ev c) :=
  ⟨.inl rfl, ⟨hc.length, hc.pos⟩, trivial⟩

/-- A turn that goes on in a sound state is safe. -/
theorem Safe.next {left : Bool} (hc : c.Bounded) (hgathers : c.cb_ = collects c.s_)
    (hremaining : Remaining c.s_ c.content_length_) : Safe (pure (c, left)) := hc.sound hgathers hremaining

/-- A callback is safe by itself: what it does is the sink's concern. -/
theorem Safe.emit {a : Action pmf_t callback} (hx : Safe x) : Safe (Exec.emit a >>= fun _ => x) := hx

/-- An assertion that holds does no harm. -/
theorem Safe.assert {b : Bool} (hb : b = true) (hx : Safe x) : Safe (assert b >>= fun _ => x) := by
  subst hb
  exact hx

/-- Passing octets of the body is safe where there is one at least. -/
theorem Safe.skip {n : Nat} (hn : 0 < n) (hx : Safe x) : Safe (skip n >>= fun _ => x) := by
  cases n with
  | zero => cases hn
  | succ n => exact hx

/-- Handing a piece over and beginning another leaves the rest of the turn to be safe. -/
theorem Safe.cb {next : Option pmf_t} {f : basic_parser_v1 → Turn (basic_parser_v1 × Bool)}
    (hf : Safe (f { c with cb_ := next })) : Safe (cb next c >>= f) := by
  unfold basic_parser_v1.cb
  cases c.cb_ <;> cases next <;> exact hf

/-- The numbers stay within their bounds when only other fields change. -/
theorem Bounded.of_eq {d : basic_parser_v1} (hc : c.Bounded) (hlength : d.content_length_ = c.content_length_)
    (hfs : d.fs_ = c.fs_) (hpos : d.pos_ = c.pos_) : d.Bounded := by
  refine ⟨?_, ?_⟩
  · rw [hlength]
    exact hc.length
  · rw [hfs, hpos]
    exact hc.pos

/-- Recognising a field fails no assertion and reads no string outside its bounds. -/
def Tracks (c : basic_parser_v1) (x : Turn basic_parser_v1) : Prop :=
  match x.outcome with
  | .returned d => d.Bounded ∧ d.cb_ = c.cb_ ∧ d.s_ = c.s_
  | .threw (_, d) => d.Sound
  | .aborted | .undefined => False

/-- A name or a value that is refused leaves a dead parser. -/
theorem Tracks.err (ev : parse_error) (hc : c.Bounded) : Tracks c (err ev c) :=
  ⟨.inl rfl, ⟨hc.length, hc.pos⟩, trivial⟩

theorem Tracks.ite {p : Prop} [Decidable p] {x y : Turn basic_parser_v1} (hx : p → Tracks c x)
    (hy : ¬p → Tracks c y) :
    Tracks c (if p then x else y) := by
  split
  · exact hx ‹_›
  · exact hy ‹_›

/-- A field state without a limit. -/
theorem Tracks.free (hc : c.Bounded) {d : basic_parser_v1} (hlength : d.content_length_ = c.content_length_)
    (hlimit : limit d.fs_ = none) (hcb : d.cb_ = c.cb_) (hs : d.s_ = c.s_) : Tracks c (pure d) := by
  refine ⟨⟨?_, ?_⟩, hcb, hs⟩
  · rw [hlength]
    exact hc.length
  · intro k hk
    rw [hlimit] at hk
    cases hk

/-- Comparing a name with a word of the table reads the word within its end: what was matched so far
    is shorter by what is still to come. -/
theorem tracks_matching (str : Bytes) (ch : UInt8) {missed matched : field_state} (hc : c.Bounded)
    (hfs : limit c.fs_ = some (str.length - 3)) (hstr : 3 ≤ str.length) (hmissed : limit missed = none)
    (hmatched : limit matched = none) : Tracks c (matching str ch missed matched c) := by
  have hpos : c.pos_ ≤ str.length - 3 := hc.pos _ hfs
  obtain ⟨x, hget⟩ : ∃ x, str[c.pos_ + 1]? = some x := ⟨_, List.getElem?_eq_getElem (by omega)⟩
  simp only [matching, hget]
  refine .ite (fun _ => .free hc rfl hmissed rfl rfl) fun _ => .ite (fun _ => .free hc rfl hmatched rfl rfl) ?_
  intro hnot
  refine ⟨⟨hc.length, ?_⟩, rfl, rfl⟩
  intro k hk
  rw [hfs] at hk
  cases hk
  have hne : c.pos_ + 1 ≠ str.length - 2 := by simpa using hnot
  change c.pos_ + 1 ≤ str.length - 3
  omega

/-- A string's own limit where it is being matched. -/
theorem limited {k : Nat} {d : basic_parser_v1} (hc : c.Bounded)
    (hlength : d.content_length_ = c.content_length_)
    (hpos : d.pos_ ≤ k) (hlimit : ∀ j, limit d.fs_ = some j → k ≤ j) : d.Bounded := by
  refine ⟨?_, ?_⟩
  · rw [hlength]
    exact hc.length
  · intro j hj
    exact Nat.le_trans hpos (hlimit j hj)

/-- In every state of the recognition a character of a name is looked at without a failed assertion,
    and the table is read within its words. -/
theorem tracks_name_char (ch : UInt8) (hc : c.Bounded) : Tracks c (name_char ch c) := by
  have hpos := hc.pos
  unfold name_char
  cases hfs : c.fs_ <;> rw [hfs] at hpos <;> dsimp only
  case h_C | h_CO | h_CON =>
    have hle := hpos _ rfl
    refine ⟨limited hc rfl (Nat.succ_le_succ hle) ?_, rfl, rfl⟩
    dsimp only
    split_ifs
    all_goals
      intro j hj
      cases hj
    all_goals decide
  case h_matching_content_length =>
    have hmatching := @tracks_matching c parser_str.content_length ch .h_general .h_content_length0 hc
      (by rw [hfs]; rfl) (by decide) rfl rfl
    unfold Tracks at hmatching ⊢
    cases ho : (matching parser_str.content_length ch .h_general .h_content_length0 c).outcome with
    | returned d =>
      rw [ho] at hmatching
      rw [Exec.bind_outcome_of_returned ho]
      split_ifs
      · exact ⟨.inl rfl, ⟨hmatching.1.length, hmatching.1.pos⟩, trivial⟩
      · exact hmatching
    | threw e =>
      rw [ho] at hmatching
      simp only [Exec.bind_def, Exec.bind, ho]
      exact hmatching
    | aborted | undefined =>
      rw [ho] at hmatching
      exact hmatching.elim
  case h_connection | h_content_length0 | h_transfer_encoding | h_upgrade => exact .free hc rfl rfl rfl rfl
  case h_matching_connection | h_matching_proxy_connection | h_matching_transfer_encoding |
      h_matching_upgrade =>
    exact tracks_matching _ ch hc (by rw [hfs]; rfl) (by decide) rfl rfl
  all_goals exact ⟨hc, rfl, rfl⟩

theorem tracks_connection_option (set : parse_flag → parse_flag) {ows : field_state} (ch : UInt8)
    (hc : c.Bounded)
    (hows : limit ows = none) : Tracks c (connection_option set ows ch c) :=
  .ite (fun _ => .free hc rfl rfl rfl rfl) fun _ => .ite (fun _ => .free hc rfl hows rfl rfl) fun _ =>
    .ite (fun _ => .free hc rfl rfl rfl rfl) fun _ => .err _ hc

theorem tracks_connection_option_ows (set : parse_flag → parse_flag) (ch : UInt8) (hc : c.Bounded) :
    Tracks c (connection_option_ows set ch c) :=
  .ite (fun _ => .free hc rfl rfl rfl rfl) fun _ => .ite (fun _ => ⟨hc, rfl, rfl⟩) fun _ => .err _ hc

/-- A string starts to be matched. -/
theorem Tracks.begin {d : basic_parser_v1} (hc : c.Bounded) (hlength : d.content_length_ = c.content_length_)
    (hpos : d.pos_ = 0) (hcb : d.cb_ = c.cb_) (hs : d.s_ = c.s_) : Tracks c (pure d) :=
  ⟨limited hc hlength (Nat.le_of_eq hpos) fun _ _ => Nat.zero_le _, hcb, hs⟩

/-- A digit is worth 9 at most. -/
theorem is_digit_value (ch : UInt8) (h : is_digit ch = true) : ch.toNat - 0x30 ≤ 9 := by
  have hle : ch ≤ 0x39 := by
    rw [is_digit, Bool.and_eq_true] at h
    simpa using h.2
  have hnat : ch.toNat ≤ 0x39 := hle
  omega

/-- Every character of a value may be looked at: a length that has grown too large is refused before
    it wraps. -/
theorem tracks_value_char (ch : UInt8) (hc : c.Bounded) : Tracks c (value_char ch c) := by
  unfold value_char
  cases hfs : c.fs_ <;> dsimp only
  case h_connection =>
    refine .ite (fun _ => .begin hc rfl rfl rfl rfl) fun _ => .ite (fun _ => .begin hc rfl rfl rfl rfl)
      fun _ => ?_
    refine .ite (fun _ => .begin hc rfl rfl rfl rfl) fun _ => .ite (fun _ => ⟨hc, rfl, rfl⟩) fun _ => ?_
    exact .ite (fun _ => .err _ hc) fun _ => .free hc rfl rfl rfl rfl
  case h_matching_connection_keep_alive | h_matching_connection_close | h_matching_connection_upgrade |
      h_matching_transfer_encoding_chunked =>
    exact tracks_matching _ _ hc (by rw [hfs]; rfl) (by decide) rfl rfl
  case h_connection_close | h_connection_keep_alive | h_connection_upgrade | h_connection_token =>
    exact tracks_connection_option _ ch hc rfl
  case h_connection_close_ows | h_connection_keep_alive_ows | h_connection_upgrade_ows |
      h_connection_token_ows =>
    exact tracks_connection_option_ows _ ch hc
  case h_content_length0 =>
    refine .ite (fun _ => .err _ hc) fun hdigit => ?_
    have hle := is_digit_value ch (by simpa using hdigit)
    refine ⟨⟨?_, fun k hk => ?_⟩, rfl, rfl⟩
    · exact Nat.le_trans hle (by decide)
    · cases hk
  case h_content_length =>
    refine .ite (fun _ => .free hc rfl rfl rfl rfl) fun _ => .ite (fun _ => .err _ hc) fun hdigit => ?_
    refine .ite (fun _ => .err _ hc) fun hroom => ?_
    have hle := is_digit_value ch (by simpa using hdigit)
    refine ⟨⟨?_, fun k hk => by cases hk⟩, rfl, rfl⟩
    -- The source's bound leaves room for one more digit.
    change c.content_length_ * 10 + (ch.toNat - 0x30) ≤ no_content_length
    simp only [no_content_length] at hroom ⊢
    omega
  case h_content_length_ows => exact .ite (fun _ => .err _ hc) fun _ => ⟨hc, rfl, rfl⟩
  case h_transfer_encoding =>
    refine .ite (fun _ => .begin hc rfl rfl rfl rfl) fun _ => ?_
    exact .ite (fun _ => .free hc rfl rfl rfl rfl) fun _ => ⟨hc, rfl, rfl⟩
  case h_matching_transfer_encoding_general | h_transfer_encoding_chunked =>
    exact .ite (fun _ => .free hc rfl rfl rfl rfl) fun _ => ⟨hc, rfl, rfl⟩
  case h_upgrade => exact .free hc rfl rfl rfl rfl
  all_goals exact ⟨hc, rfl, rfl⟩

/-- A character that is only recognised leaves the parser where it was. -/
theorem Safe.tracked {y : Turn basic_parser_v1} (hy : Tracks c y) (hgathers : c.cb_ = collects c.s_)
    (hs : ∀ n, Remaining c.s_ n) : Safe (y >>= fun c => pure (c, false)) := by
  unfold Tracks at hy
  unfold Safe
  cases ho : y.outcome with
  | returned d =>
    rw [ho] at hy
    rw [Exec.bind_outcome_of_returned ho]
    obtain ⟨hbounded, hcb, hstate⟩ := hy
    refine hbounded.sound ?_ ?_
    · rw [hcb, hstate, hgathers]
    · rw [hstate]
      exact hs _
  | threw e =>
    rw [ho] at hy
    simp only [Exec.bind_def, Exec.bind, ho]
    exact hy
  | aborted | undefined =>
    rw [ho] at hy
    exact hy.elim

/-- The end of a message is a safe turn. -/
theorem safe_complete (hc : c.Bounded) : Safe (message_complete c) :=
  .emit (.cb (.emit (.next ⟨hc.length, hc.pos⟩ rfl trivial)))

/-- The end of the header is, whatever body follows. -/
theorem safe_headers_done (isRequest : Bool) (hc : c.Bounded) (hcb : c.cb_ = none) :
    Safe (headers_done isRequest c) := by
  have hcomplete : Safe (message_complete { c with s_ := .s_complete }) := safe_complete ⟨hc.length, hc.pos⟩
  refine .assert (by rw [hcb]; rfl) ?_
  split_ifs with hupgrade hempty hchunked hlength heof
  · exact hcomplete
  · exact hcomplete
  · exact .next ⟨hc.length, hc.pos⟩ hcb trivial
  · have hpos : c.content_length_ ≠ 0 := by
      intro hzero
      simp [hzero] at hempty
    exact .next ⟨hc.length, hc.pos⟩ hcb ⟨Nat.pos_of_ne_zero hpos, hlength⟩
  · exact hcomplete
  · exact .next ⟨hc.length, hc.pos⟩ hcb trivial

theorem safe_headers_almost_done (isRequest : Bool) (what : body_what) (ch : UInt8) (hc : c.Bounded)
    (hcb : c.cb_ = none) : Safe (headers_almost_done isRequest what ch c) := by
  unfold headers_almost_done
  split_ifs
  · exact .err _ hc
  · exact safe_complete ⟨hc.length, hc.pos⟩
  · exact .err _ hc
  · apply Safe.emit
    cases what <;> exact safe_headers_done isRequest ⟨hc.length, hc.pos⟩ hcb

/-- The first character of a name starts the comparison at the second one. -/
theorem Bounded.name_char0 (hc : c.Bounded) (ch : UInt8) : (name_char0 ch c).Bounded := by
  unfold basic_parser_v1.name_char0
  split_ifs
  · exact limited hc rfl (Nat.le_refl 0) fun _ _ => Nat.zero_le _
  · exact limited hc rfl (Nat.le_refl 0) fun _ _ => Nat.zero_le _
  · exact limited hc rfl (Nat.le_refl 0) fun _ _ => Nat.zero_le _
  · exact limited hc rfl (Nat.le_refl 0) fun _ _ => Nat.zero_le _
  · exact ⟨hc.length, fun k hk => by cases hk⟩

/-- The state before a name is left safely. -/
theorem safe_header_name0 (ch : UInt8) (hc : c.Bounded) (hcb : c.cb_ = none) : Safe (header_name0 ch c) := by
  unfold header_name0
  split_ifs
  · exact .next ⟨hc.length, hc.pos⟩ hcb trivial
  · exact .err _ hc
  · have hbounded := hc.name_char0 (to_field_char ch)
    exact .assert (by rw [cb_name_char0, hcb]; rfl) (.cb (.next ⟨hbounded.length, hbounded.pos⟩ rfl trivial))

/-- A character of a name is read safely. -/
theorem safe_header_name (ch : UInt8) (hc : c.Bounded) (hs : c.s_ = .s_header_name)
    (hcb : c.cb_ = collects c.s_) :
    Safe (header_name ch c) := by
  unfold header_name
  split_ifs
  · exact .tracked (tracks_name_char _ hc) hcb (by rw [hs]; exact fun _ => trivial)
  · exact .cb (.next ⟨hc.length, hc.pos⟩ rfl trivial)
  · exact .err _ hc

/-- A character of a value is read safely. -/
theorem safe_header_value (ch : UInt8) (hc : c.Bounded) (hs : c.s_ = .s_header_value)
    (hcb : c.cb_ = collects c.s_) : Safe (header_value ch c) := by
  unfold header_value
  split_ifs
  · exact .cb (.next ⟨hc.length, hc.pos⟩ rfl trivial)
  · exact .err _ hc
  · exact .tracked (tracks_value_char _ hc) hcb (by rw [hs]; exact fun _ => trivial)

/-- The beginning of a value sets its length to zero at most. -/
theorem Bounded.value_begins (hc : c.Bounded) : (value_begins c).Bounded := by
  unfold basic_parser_v1.value_begins
  split
  · exact ⟨Nat.zero_le _, hc.pos⟩
  · exact hc

/-- The state before a value is left safely. -/
theorem safe_header_value0 (ch : UInt8) (hc : c.Bounded) (hs : c.s_ = .s_header_value0) (hcb : c.cb_ = none) :
    Safe (header_value0 ch c) := by
  unfold header_value0
  split_ifs
  · exact .next hc (by rw [hcb, hs]; rfl) (by rw [hs]; trivial)
  · exact .next ⟨hc.length, hc.pos⟩ hcb trivial
  · have hbounded := hc.value_begins
    refine .assert (by rw [cb_value_begins, hcb]; rfl) (.cb ?_)
    exact safe_header_value ch ⟨hbounded.length, hbounded.pos⟩ rfl rfl

theorem safe_header_value0_almost_done (ch : UInt8) (hc : c.Bounded) (hcb : c.cb_ = none) :
    Safe (header_value0_almost_done ch c) := by
  unfold header_value0_almost_done
  split_ifs
  · exact .next ⟨hc.length, hc.pos⟩ hcb trivial
  · exact .err _ hc
  · refine .assert ?_ (.emit ?_)
    · rw [hcb]
      rfl
    · exact safe_header_name0 ch ⟨hc.length, hc.pos⟩ hcb

/-- A value that goes on in the next line goes on with its words as they were, or ignores them. -/
theorem limit_unfolded (fs : field_state) : limit (unfolded fs) = none ∨ unfolded fs = fs := by
  cases fs <;> simp [unfolded, limit]

/-- The end of a value's line is left safely. -/
theorem safe_header_value_almost_done (ch : UInt8) (hc : c.Bounded) (hcb : c.cb_ = none) :
    Safe (header_value_almost_done ch c) := by
  unfold header_value_almost_done
  split_ifs
  · refine .emit (.next ⟨hc.length, ?_⟩ hcb trivial)
    intro k hk
    rcases limit_unfolded c.fs_ with hlimit | hsame
    · cases hlimit.symm.trans hk
    · exact hc.pos k (by rw [← hsame]; exact hk)
  · exact safe_header_name0 ch ⟨hc.length, hc.pos⟩ hcb

theorem safe_header_value_unfold (ch : UInt8) (hc : c.Bounded) (hcb : c.cb_ = none) :
    Safe (header_value_unfold ch c) := by
  refine .assert (by rw [hcb]; rfl) (.cb ?_)
  exact safe_header_value ch ⟨hc.length, hc.pos⟩ rfl rfl

/-- How many octets a turn in a body passes. -/
theorem body_part {n : Nat} (hn : 0 < n) (hpos : 0 < c.content_length_) :
    0 < (if n < c.content_length_ then n else c.content_length_) ∧
      (if n < c.content_length_ then n else c.content_length_) ≤ c.content_length_ := by
  split <;> omega

/-- Octets that were read of a body leave its length in bounds. -/
theorem Bounded.less (hc : c.Bounded) (k : Nat) {d : basic_parser_v1}
    (hlength : d.content_length_ = c.content_length_ - k)
    (hfs : d.fs_ = c.fs_) (hpos : d.pos_ = c.pos_) : d.Bounded := by
  refine ⟨?_, ?_⟩
  · rw [hlength]
    exact Nat.le_trans (Nat.sub_le _ _) hc.length
  · rw [hfs, hpos]
    exact hc.pos

/-- A part of a body is passed, no more of it than there is. -/
theorem safe_body_identity {n : Nat} (hn : 0 < n) (hc : c.Bounded) (hs : c.s_ = .s_body_identity)
    (hcb : c.cb_ = collects c.s_) (hremaining : Remaining c.s_ c.content_length_) :
    Safe (body_identity n c) := by
  rw [hs] at hremaining
  obtain ⟨hpos, hlength⟩ := hremaining
  obtain ⟨hk, hle⟩ := body_part hn hpos
  have hmax := hc.length
  simp only [body_identity]
  generalize (if n < c.content_length_ then n else c.content_length_) = k at hk hle
  refine .assert ?_ (.skip hk ?_)
  · rw [Bool.and_eq_true]
    exact ⟨by simpa using Nat.ne_of_gt hpos, by simpa using hlength⟩
  · by_cases hrest : c.content_length_ - k = 0
    · rw [if_pos hrest]
      exact safe_complete (hc.less k rfl rfl rfl)
    · rw [if_neg hrest]
      refine .next (hc.less k rfl rfl rfl) hcb ?_
      rw [hs]
      refine ⟨Nat.pos_of_ne_zero hrest, ?_⟩
      change c.content_length_ - k ≠ no_content_length
      omega

theorem safe_chunk_data {n : Nat} (hn : 0 < n) (hc : c.Bounded) (hs : c.s_ = .s_chunk_data)
    (hcb : c.cb_ = collects c.s_) (hremaining : Remaining c.s_ c.content_length_) : Safe (chunk_data n c) := by
  rw [hs] at hremaining
  obtain ⟨hk, -⟩ := @body_part c n hn hremaining
  simp only [chunk_data]
  generalize (if n < c.content_length_ then n else c.content_length_) = k at hk
  refine .skip hk ?_
  by_cases hrest : c.content_length_ - k = 0
  · rw [if_pos hrest]
    exact .next (hc.less k rfl rfl rfl) (by rw [hcb, hs]; rfl) trivial
  · rw [if_neg hrest]
    refine .next (hc.less k rfl rfl rfl) hcb ?_
    rw [hs]
    exact Nat.pos_of_ne_zero hrest

/-- A state that waits for one octet is left safely. -/
theorem safe_expect {next : state} (ch want : UInt8) (ev : parse_error) (hc : c.Bounded) (hcb : c.cb_ = none)
    (hnext : collects next = none) (hremaining : Remaining next c.content_length_) :
    Safe (expect ch want ev next c) := by
  unfold expect
  split
  · exact .err _ hc
  · exact .next ⟨hc.length, hc.pos⟩ (hcb.trans hnext.symm) hremaining

/-- A state that takes a digit is left safely. -/
theorem safe_digit {next : basic_parser_v1} (ch : UInt8) (ev : parse_error) (hc : c.Bounded)
    (hnext : next.Bounded)
    (hgathers : next.cb_ = collects next.s_) (hremaining : Remaining next.s_ next.content_length_) :
    Safe (digit ch ev c next) := by
  unfold digit
  split
  · exact .err _ hc
  · exact .next hnext hgathers hremaining

/-- The first character of a method is read safely. -/
theorem safe_req_method0 (ch : UInt8) (hc : c.Bounded) (hcb : c.cb_ = none) : Safe (req_method0 ch c) := by
  unfold req_method0
  split
  · exact .err _ hc
  · exact .emit (.assert (by rw [hcb]; rfl) (.cb (.next ⟨hc.length, hc.pos⟩ rfl trivial)))

/-- The start of a message is a safe turn from every state. -/
theorem safe_start (isRequest : Bool) (ch : UInt8) (hc : c.Bounded) : Safe (start isRequest ch c) := by
  have hstart : ∀ d : basic_parser_v1, d.content_length_ = no_content_length → d.fs_ = c.fs_ → d.pos_ = c.pos_ →
      d.Bounded := by
    intro d hlength hfs hpos
    refine ⟨Nat.le_of_eq hlength, ?_⟩
    rw [hfs, hpos]
    exact hc.pos
  unfold start
  dsimp only
  split_ifs
  · exact safe_req_method0 ch (hstart _ rfl rfl rfl) rfl
  · exact .err _ (hstart _ rfl rfl rfl)
  · exact .emit (.next (hstart _ rfl rfl rfl) rfl trivial)

/-- A digit in base 16 is worth 15 at most. -/
theorem unhex_le {ch : UInt8} {v : Nat} (h : unhex ch = some v) : v ≤ 15 := by
  have hdigit : ∀ n < 256, ∀ v, unhex (UInt8.ofNat n) = some v → v ≤ 15 := by
    intro n hn v hv
    have hall : ∀ n < 256, (unhex (UInt8.ofNat n)).all (· ≤ 15) = true := by decide +kernel
    simpa [hv] using hall n hn
  apply hdigit ch.toNat ch.toNat_lt v
  rwa [UInt8.ofNat_toNat]

/-- The size of a chunk that has grown too large is refused before it wraps. -/
theorem safe_chunk_size (ch : UInt8) (hc : c.Bounded) (hs : c.s_ = .s_chunk_size) (hcb : c.cb_ = none) :
    Safe (chunk_size ch c) := by
  unfold chunk_size
  split_ifs with hcr hext hroom
  · exact .next ⟨hc.length, hc.pos⟩ hcb trivial
  · exact .next ⟨hc.length, hc.pos⟩ hcb trivial
  · cases unhex ch <;> exact .err _ hc
  · cases hv : unhex ch with
    | none => exact .err _ hc
    | some v =>
      have hle := unhex_le hv
      refine .next ⟨?_, hc.pos⟩ (by rw [hcb, hs]; rfl) (by rw [hs]; trivial)
      -- The source's bound leaves room for one more digit.
      change c.content_length_ * 16 + v ≤ no_content_length
      simp only [no_content_length] at hroom ⊢
      omega

/-- Every turn from a sound state is safe, however many octets are left. -/
theorem safe_turn (isRequest : Bool) (what : body_what) {n : Nat} (hn : 0 < n) (ch : UInt8) (hc : c.Sound) :
    Safe (turn isRequest what c n ch) := by
  obtain ⟨hgathers, hb, hremaining⟩ := hc
  have hsame : ∀ d : basic_parser_v1, d.content_length_ = c.content_length_ → d.fs_ = c.fs_ → d.pos_ = c.pos_ →
      d.Bounded := fun d => hb.of_eq
  rcases hgathers with hdead | hcb
  · rw [turn, hdead]
    exact .err _ hb
  · have hgathers := hcb
    rw [turn]
    cases hs : c.s_ <;> rw [hs] at hcb <;> dsimp only <;> simp only [collects] at hcb
    case s_dead | s_closed_complete => exact .err _ hb
    case s_header_name => exact safe_header_name ch hb hs hgathers
    case s_header_value => exact safe_header_value ch hb hs hgathers
    case s_body_identity => exact safe_body_identity hn hb hs hgathers hremaining
    case s_chunk_data => exact safe_chunk_data hn hb hs hgathers hremaining
    case s_req_method | s_req_url | s_res_reason =>
      split_ifs
      · exact .cb (.next (hsame _ rfl rfl rfl) rfl trivial)
      · exact .err _ hb
      · exact .next hb hgathers hremaining
    case s_body_identity_eof => exact .skip hn (.next hb hgathers hremaining)
    case s_chunk_data_cr =>
      split_ifs
      · exact .err _ hb
      · exact .cb (.next (hsame _ rfl rfl rfl) rfl trivial)
    case s_complete => exact safe_complete hb
    case s_req_start | s_res_start => exact safe_start _ ch hb
    case s_req_method0 => exact safe_req_method0 ch hb hcb
    case s_req_url0 | s_res_reason0 =>
      split_ifs
      · first
          | exact .err _ hb
          | exact .next (hsame _ rfl rfl rfl) hcb trivial
      · exact .err _ hb
      · exact .assert (by rw [hcb]; rfl) (.cb (.next (hsame _ rfl rfl rfl) rfl trivial))
    case s_req_lf =>
      split_ifs
      · exact .err _ hb
      · exact .emit (.next (hsame _ rfl rfl rfl) hcb trivial)
    case s_res_line_done => exact .emit (safe_header_name0 ch (hsame _ rfl rfl rfl) hcb)
    case s_header_name0 => exact safe_header_name0 ch hb hcb
    case s_header_value0 => exact safe_header_value0 ch hb hs hcb
    case s_header_value0_almost_done => exact safe_header_value0_almost_done ch hb hcb
    case s_header_value_almost_done => exact safe_header_value_almost_done ch hb hcb
    case s_header_value_unfold => exact safe_header_value_unfold ch hb hcb
    case s_headers_almost_done => exact safe_headers_almost_done isRequest what ch hb hcb
    case s_headers_done => exact safe_headers_done isRequest hb hcb
    case s_body_identity0 =>
      rw [hs] at hremaining
      refine .assert (by rw [hcb]; rfl) (.cb ?_)
      exact safe_body_identity hn (hsame _ rfl rfl rfl) rfl rfl hremaining
    case s_chunk_data0 =>
      rw [hs] at hremaining
      refine .assert (by rw [hcb]; rfl) (.cb ?_)
      exact safe_chunk_data hn (hsame _ rfl rfl rfl) rfl rfl hremaining
    case s_body_identity_eof0 =>
      exact .assert (by rw [hcb]; rfl) (.cb (.skip hn (.next (hsame _ rfl rfl rfl) rfl trivial)))
    case s_chunk_size0 =>
      cases hv : unhex ch with
      | none => exact .err _ hb
      | some v => exact .next ⟨Nat.le_trans (unhex_le hv) (by decide), hb.pos⟩ hcb trivial
    case s_chunk_size => exact safe_chunk_size ch hb hs hcb
    case s_chunk_ext_name0 =>
      split_ifs
      · exact .err _ hb
      · exact .next (hsame _ rfl rfl rfl) hcb trivial
    case s_chunk_ext_name | s_chunk_ext_val =>
      split_ifs
      all_goals first
        | exact .err _ hb
        | exact .next (hsame _ rfl rfl rfl) hcb trivial
        | exact .next hb hgathers hremaining
    case s_chunk_size_lf =>
      split_ifs
      · exact .err _ hb
      · exact .next (hsame _ rfl rfl rfl) hcb trivial
      · exact .next (hsame _ rfl rfl rfl) hcb (Nat.pos_of_ne_zero ‹_›)
    case s_restart =>
      split
      · exact .emit (safe_start _ ch (hsame _ rfl rfl rfl))
      · exact .err _ (hsame _ rfl rfl rfl)
    all_goals first
      | exact safe_expect _ _ _ hb hcb rfl trivial
      | exact safe_digit _ _ hb (hsame _ rfl rfl rfl) hcb trivial

/-- Passing octets, and what comes after it. -/
theorem skip_bind {α : Type} (k : Nat) (f : Unit → Turn α) :
    (skip (k + 1) >>= f) = ⟨List.replicate k .advance ++ (f ()).events, (f ()).outcome⟩ := rfl

/-- What a turn in a body does that passes `k + 1` octets of it. -/
def body_turn (c : basic_parser_v1) (after : basic_parser_v1 → Turn (basic_parser_v1 × Bool)) (k : Nat) :
    Turn (basic_parser_v1 × Bool) :=
  skip (k + 1) >>= fun _ => after { c with content_length_ := c.content_length_ - (k + 1) }

/-- The last octet of a body, or of a chunk, is passed as the first would be. -/
theorem body_turn_zero {after : basic_parser_v1 → Turn (basic_parser_v1 × Bool)} {d : basic_parser_v1}
    (hafter : after { c with content_length_ := c.content_length_ - 1 } = pure (d, false)) :
    body_turn c after 0 = ⟨[], .returned (d, false)⟩ := by
  rw [body_turn, skip_bind, hafter]
  rfl

/-- Of several octets of a body, passing the first one alone and going on comes to the same. -/
theorem body_turn_succ {after : basic_parser_v1 → Turn (basic_parser_v1 × Bool)} (k : Nat) :
    body_turn c after (k + 1) =
      ⟨.advance :: (body_turn { c with content_length_ := c.content_length_ - 1 } after k).events,
        (body_turn { c with content_length_ := c.content_length_ - 1 } after k).outcome⟩ := by
  have hlength : c.content_length_ - (k + 1 + 1) = c.content_length_ - 1 - (k + 1) := by omega
  simp only [body_turn, skip_bind, hlength]
  rfl

/-- How many octets a turn passes when `n + 1` are left and the length is `l`, less one. -/
theorem part_eq (n l : Nat) (hl : 0 < l) : (if n + 1 < l then n + 1 else l) = min n (l - 1) + 1 := by
  split <;> omega

/-- What is done once a part of the body has been passed. -/
def identity_after (c : basic_parser_v1) : Turn (basic_parser_v1 × Bool) :=
  if c.content_length_ = 0 then message_complete { c with s_ := .s_complete } else return (c, false)

def chunk_after (c : basic_parser_v1) : Turn (basic_parser_v1 × Bool) :=
  if c.content_length_ = 0 then return ({ c with s_ := .s_chunk_data_cr }, false) else return (c, false)

/-- A turn within a body, with the number of octets it passes. -/
theorem body_identity_eq (n : Nat) (hpos : 0 < c.content_length_)
    (hlength : c.content_length_ ≠ no_content_length) :
    body_identity (n + 1) c = body_turn c identity_after (min n (c.content_length_ - 1)) := by
  have hassert : (c.content_length_ ≠ 0 && c.content_length_ ≠ no_content_length) = true := by
    rw [Bool.and_eq_true]
    exact ⟨by simpa using Nat.ne_of_gt hpos, by simpa using hlength⟩
  simp only [body_identity, hassert, part_eq n _ hpos]
  rfl

/-- A turn within a chunk, with the number of octets it passes. -/
theorem chunk_data_eq (n : Nat) (hpos : 0 < c.content_length_) :
    chunk_data (n + 1) c = body_turn c chunk_after (min n (c.content_length_ - 1)) := by
  simp only [chunk_data, part_eq n _ hpos]
  rfl

/-- A turn in a body with several octets left is the turn with one left, or that and a further one. -/
theorem bulk_body_turn {after : basic_parser_v1 → Turn (basic_parser_v1 × Bool)} (n : Nat)
    (hafter : 1 < c.content_length_ →
      after { c with content_length_ := c.content_length_ - 1 } =
        pure ({ c with content_length_ := c.content_length_ - 1 }, false)) (hpos : 0 < c.content_length_) :
    body_turn c after (min (n + 1) (c.content_length_ - 1)) = body_turn c after 0 ∨
      0 < c.content_length_ - 1 ∧
      body_turn c after 0 = ⟨[], .returned ({ c with content_length_ := c.content_length_ - 1 }, false)⟩ ∧
      body_turn c after (min (n + 1) (c.content_length_ - 1)) =
        ⟨.advance :: (body_turn { c with content_length_ := c.content_length_ - 1 } after
            (min n (c.content_length_ - 1 - 1))).events,
          (body_turn { c with content_length_ := c.content_length_ - 1 } after
            (min n (c.content_length_ - 1 - 1))).outcome⟩ := by
  by_cases hmany : 1 < c.content_length_
  · right
    have hmin : min (n + 1) (c.content_length_ - 1) = min n (c.content_length_ - 1 - 1) + 1 := by omega
    rw [hmin]
    exact ⟨by omega, body_turn_zero (hafter hmany), body_turn_succ _⟩
  · left
    have hmin : min (n + 1) (c.content_length_ - 1) = 0 := by omega
    rw [hmin]

/-- Of several octets left, the first one is read as if it were alone, or it is passed alone in a
    body and the turn goes on with the next. -/
def Bulk (isRequest : Bool) (what : body_what) (n : Nat) (x : Nat → Turn (basic_parser_v1 × Bool)) : Prop :=
  x (n + 2) = x 1 ∨
    ∃ acts d, x 1 = ⟨acts, .returned (d, false)⟩ ∧
      ∀ ch, x (n + 2) = ⟨acts ++ .advance :: (turn isRequest what d (n + 1) ch).events,
        (turn isRequest what d (n + 1) ch).outcome⟩

/-- Octets of a body may be passed one by one. -/
theorem bulk_identity (isRequest : Bool) (what : body_what) (n : Nat) (hs : c.s_ = .s_body_identity)
    (hremaining : Remaining c.s_ c.content_length_) (hmax : c.content_length_ ≤ no_content_length) :
    Bulk isRequest what n (fun n => body_identity n c) := by
  rw [hs] at hremaining
  obtain ⟨hpos, hlength⟩ := hremaining
  have hone : body_identity 1 c = body_turn c identity_after 0 := by
    rw [body_identity_eq 0 hpos hlength, Nat.zero_min]
  rw [Bulk, hone, body_identity_eq (n + 1) hpos hlength]
  rcases @bulk_body_turn c identity_after n (fun hmany => if_neg (Nat.sub_ne_zero_of_lt hmany)) hpos with
    hsame | ⟨hrest, hfirst, hmore⟩
  · exact .inl hsame
  · refine .inr ⟨[], _, hfirst, fun ch => ?_⟩
    have hturn : turn isRequest what { c with content_length_ := c.content_length_ - 1 } (n + 1) ch =
        body_identity (n + 1) { c with content_length_ := c.content_length_ - 1 } := by
      rw [turn, hs]
    rw [hturn, body_identity_eq n hrest (by dsimp only; omega), hmore]
    rfl

theorem bulk_chunk (isRequest : Bool) (what : body_what) (n : Nat) (hs : c.s_ = .s_chunk_data)
    (hremaining : Remaining c.s_ c.content_length_) : Bulk isRequest what n (fun n => chunk_data n c) := by
  rw [hs] at hremaining
  have hpos : 0 < c.content_length_ := hremaining
  have hone : chunk_data 1 c = body_turn c chunk_after 0 := by
    rw [chunk_data_eq 0 hpos, Nat.zero_min]
  rw [Bulk, hone, chunk_data_eq (n + 1) hpos]
  rcases @bulk_body_turn c chunk_after n (fun hmany => if_neg (Nat.sub_ne_zero_of_lt hmany)) hpos with
    hsame | ⟨hrest, hfirst, hmore⟩
  · exact .inl hsame
  · refine .inr ⟨[], _, hfirst, fun ch => ?_⟩
    have hturn : turn isRequest what { c with content_length_ := c.content_length_ - 1 } (n + 1) ch =
        chunk_data (n + 1) { c with content_length_ := c.content_length_ - 1 } := by
      rw [turn, hs]
    rw [hturn, chunk_data_eq n hrest, hmore]
    rfl

/-- Octets of a body that ends with the stream may be passed one by one. -/
theorem bulk_eof (isRequest : Bool) (what : body_what) (n : Nat) (hs : c.s_ = .s_body_identity_eof) :
    Bulk isRequest what n (fun n => skip n >>= fun _ => pure (c, false)) := by
  refine .inr ⟨[], c, rfl, fun ch => ?_⟩
  have hturn : turn isRequest what c (n + 1) ch = skip (n + 1) >>= fun _ => pure (c, false) := by
    rw [turn, hs]
  rw [hturn]
  rfl

/-- A body begins: its first octet is gathered, and read as the others are. -/
theorem Bulk.begin {isRequest : Bool} {what : body_what} {n : Nat} {next : state}
    {x : basic_parser_v1 → Nat → Turn (basic_parser_v1 × Bool)} (hcb : c.cb_ = none)
    (hx : Bulk isRequest what n (x { c with cb_ := some .call_on_body, s_ := next })) :
    Bulk isRequest what n (fun n => do
      assert c.cb_.isNone
      let c ← cb (some .call_on_body) c
      x { c with s_ := next } n) := by
  have hbegin : ∀ m, (do
      assert c.cb_.isNone
      let c ← cb (some .call_on_body) c
      x { c with s_ := next } m) =
      ⟨.begin .call_on_body :: (x { c with cb_ := some .call_on_body, s_ := next } m).events,
        (x { c with cb_ := some .call_on_body, s_ := next } m).outcome⟩ := by
    intro m
    rw [cb_some hcb, hcb]
    rfl
  simp only [Bulk, hbegin]
  rcases hx with hsame | ⟨acts, d, hfirst, hmore⟩
  · left
    rw [hsame]
  · right
    refine ⟨.begin .call_on_body :: acts, d, ?_, fun ch => ?_⟩
    · rw [hfirst]
    · rw [hmore ch]
      rfl

/-- In every state a turn with many octets left does what turns with one would. -/
theorem bulk_turn (isRequest : Bool) (what : body_what) (n : Nat) (ch : UInt8) (hc : c.Sound) :
    Bulk isRequest what n (fun n => turn isRequest what c n ch) := by
  obtain ⟨hgathers, hb, hremaining⟩ := hc
  cases hs : c.s_ <;> simp only [turn, hs]
  case s_body_identity => exact bulk_identity isRequest what n hs hremaining hb.length
  case s_chunk_data => exact bulk_chunk isRequest what n hs hremaining
  case s_body_identity_eof => exact bulk_eof isRequest what n hs
  case s_body_identity0 =>
    have hcb : c.cb_ = none := by simpa [Gathers, hs, collects] using hgathers
    rw [hs] at hremaining
    refine @Bulk.begin c isRequest what n .s_body_identity (fun c n => body_identity n c) hcb ?_
    exact bulk_identity isRequest what n rfl hremaining hb.length
  case s_chunk_data0 =>
    have hcb : c.cb_ = none := by simpa [Gathers, hs, collects] using hgathers
    rw [hs] at hremaining
    refine @Bulk.begin c isRequest what n .s_chunk_data (fun c n => chunk_data n c) hcb ?_
    exact bulk_chunk isRequest what n rfl hremaining
  case s_body_identity_eof0 =>
    have hcb : c.cb_ = none := by simpa [Gathers, hs, collects] using hgathers
    refine @Bulk.begin c isRequest what n .s_body_identity_eof
      (fun c n => skip n >>= fun _ => pure (c, false)) hcb ?_
    exact bulk_eof isRequest what n rfl
  all_goals exact .inl rfl

/-- The parser is a push parser: it may be read octet by octet. -/
theorem lawful (isRequest : Bool) (what : body_what) : (machine isRequest what).Lawful Sound where
  kept c ch d left hc h := by
    have hsafe := safe_turn isRequest what Nat.one_pos ch hc
    rw [Safe] at hsafe
    simp only [machine] at h
    rwa [h] at hsafe
  flow c ch d left hc h := (flows_turn isRequest what ch hc.gathers d left h).1
  advances c ch d left hc h := (flows_turn isRequest what ch hc.gathers d left h).2.2.1
  left c ch d hc h := by
    obtain ⟨-, hcb, -, hleft⟩ := flows_turn isRequest what ch hc.gathers d true h
    have hnone : collects d.s_ = none := by
      rcases Bool.or_eq_true_iff.mp hleft.symm with hs | hs <;> rw [eq_of_beq hs] <;> rfl
    exact hcb.trans hnone
  bulk c n ch ch' hc := by
    rcases bulk_turn isRequest what n ch hc with hsame | ⟨acts, d, hfirst, hmore⟩
    · exact .inl hsame
    · exact .inr ⟨acts, d, hfirst, hmore ch'⟩

end

end taraxacum.http.basic_parser_v1
