import Taraxacum.Push.Safety
import Taraxacum.Transition
import Taraxacum.Http.Parser.Alive
import Taraxacum.Http.Parser.Stream
import Taraxacum.Http.Parser.Values

open json exec push

namespace taraxacum.http

namespace parser_v1

/-- A field that waits to be stored has a name. -/
def Stores (p : parser_v1) : Prop := p.flush_ = true → p.field_ ≠ []

variable {isRequest : Bool} {p : parser_v1}

/-- `flush` needs a name for the value it stores. -/
theorem flush_leaves (hp : p.Stores) : Leaves Stores (flush p) := by
  unfold flush
  split_ifs with hflush hfield
  · exact hp
  · exact hp (by simpa using hflush) (by simpa using hfield)
  · intro h
    cases h

/-- A piece of the header is refused when there are too many of them, and otherwise handed on. -/
theorem header_piece_leaves {P : parser_v1 → Prop} {s : Bytes} {on : parser_v1 → Outcome parse_error parser_v1}
    (hon : ∀ n, Leaves P (on { p with h_left_ := n })) : Leaves P (header_piece s on p) := by
  unfold header_piece
  split
  · trivial
  · exact hon _

/-- A part of a value leaves the name as it is. -/
theorem value_leaves (s : Bytes) (hp : p.field_ ≠ []) : Leaves (fun p => p.field_ ≠ []) (call_on_value s p) :=
  header_piece_leaves fun _ => hp

/-- Within a value there is a name, and it stays. -/
theorem within_take (t : pmf_t) (s : Bytes) (ht : basic_parser_v1.Within (.piece t)) (hp : p.field_ ≠ []) :
    Leaves (fun p => p.field_ ≠ []) (take isRequest t s p) := by
  rcases ht with h | ⟨t', h⟩
  · cases t <;> cases h
    exact value_leaves s hp
  · cases h

theorem within_call (g : callback)
    (hg : basic_parser_v1.Within (.call g) ∨ basic_parser_v1.Within (.callUnchecked g)) (hp : p.field_ ≠ []) :
    Leaves (fun p => p.field_ ≠ []) (call isRequest g p) := by
  cases g with
  | on_value s => exact value_leaves s hp
  | _ => rcases hg with (h | ⟨t, h⟩) | (h | ⟨t, h⟩) <;> cases h

/-- A piece of a name leaves a name. -/
theorem field_leaves {s : Bytes} (hs : s ≠ []) (hp : p.Stores) :
    Leaves (fun p => p.field_ ≠ []) (take isRequest .call_on_field s p) := by
  refine header_piece_leaves fun n => ?_
  have hflush := @flush_leaves { p with h_left_ := n } hp
  unfold on_field
  cases ho : flush { p with h_left_ := n } with
  | returned q => simp [Leaves, hs]
  | threw e => trivial
  | aborted | undefined =>
    rw [ho] at hflush
    exact hflush

/-- Outside of values no piece stores without a name. -/
theorem outside_take (t : pmf_t) (s : Bytes) (ht : basic_parser_v1.hands_value (.piece t) = false)
    (hp : p.Stores) :
    Leaves Stores (take isRequest t s p) := by
  cases t with
  | call_on_method | call_on_uri | call_on_reason =>
    rw [take]
    split
    all_goals first
      | exact hp
      | exact header_piece_leaves fun _ => hp
  | call_on_field =>
    refine header_piece_leaves fun n => ?_
    have hflush := @flush_leaves { p with h_left_ := n } hp
    unfold on_field
    cases ho : flush { p with h_left_ := n } with
    | returned q =>
      intro h
      rw [(flush_returned ho).1] at h
      cases h
    | threw e => trivial
    | aborted | undefined =>
      rw [ho] at hflush
      exact hflush
  | call_on_value => cases ht
  | call_on_body =>
    change Leaves Stores (call_on_body s p)
    unfold call_on_body
    split
    · trivial
    · exact hp

theorem outside_call (g : callback)
    (hg : basic_parser_v1.hands_value (.call g) = false ∨
      basic_parser_v1.hands_value (.callUnchecked g) = false)
    (hp : p.Stores) : Leaves Stores (call isRequest g p) := by
  cases g with
  | on_value s => rcases hg with h | h <;> cases h
  | on_header major minor =>
    have hflush := flush_leaves hp
    rw [call]
    cases ho : flush p with
    | returned q =>
      rw [ho] at hflush
      exact hflush
    | threw e => trivial
    | aborted | undefined =>
      rw [ho] at hflush
      exact hflush
  | on_request | on_response => cases isRequest <;> exact hp
  | on_start | on_complete | reset => exact hp

end parser_v1

namespace Parser

variable {isRequest : Bool}

/-- What holds at every turn of the loop, with what has been gathered in the buffer. -/
structure Named (c : basic_parser_v1) (piece : Bytes) (p : parser_v1) : Prop where
  sound : c.Sound
  stores : p.Stores
  value : c.InValue → p.field_ ≠ []
  name : c.s_ = .s_header_name → piece ≠ [] ∨ p.field_ ≠ []

/-- Where there is a name a value may come. -/
theorem Named.of_field {c : basic_parser_v1} {piece : Bytes} {p : parser_v1} (hc : c.Sound)
    (hp : p.field_ ≠ []) :
    Named c piece p :=
  ⟨hc, fun _ => hp, fun _ => hp, fun _ => .inr hp⟩

/-- A dead parser takes no more values. -/
theorem Named.dead {c : basic_parser_v1} {p : parser_v1} (hc : c.Sound) (hs : c.s_ = .s_dead) (hp : p.Stores)
    (hcb : c.cb_ ≠ some .call_on_value) : Named c [] p := by
  refine ⟨hc, hp, ?_, ?_⟩
  · rintro (h | h)
    · rw [hs] at h
      cases h
    · exact absurd h hcb
  · intro h
    rw [hs] at h
    cases h

/-- A parser that was stopped in its turn is sound. -/
theorem dead_sound {c : basic_parser_v1} (hc : c.Sound) (what : body_what) :
    ((basic_parser_v1.machine isRequest what).dead c).Sound :=
  ⟨.inl rfl, ⟨hc.bounded.length, hc.bounded.pos⟩, trivial⟩

/-- The loop has ended after a message. -/
theorem ended {what : body_what} {c d : basic_parser_v1} {ch : UInt8} {n : Nat} (hc : c.Sound)
    (ho : (basic_parser_v1.turn isRequest what c (n + 1) ch).outcome = .returned (d, true)) :
    d.s_ ≠ .s_header_name := by
  obtain ⟨b, hb, hone, -⟩ := (basic_parser_v1.lawful isRequest what).many n hc ho
  have hcomplete := (basic_parser_v1.flows_turn isRequest what ch hb.gathers d true hone).2.2.2
  intro hs
  rw [basic_parser_v1.complete, hs] at hcomplete
  cases hcomplete

/-- What is left to show of a turn once its callbacks have come back. -/
theorem named_of_holds {what : body_what} {c : basic_parser_v1} {ch : UInt8} {rest : Bytes}
    {cur : Cursor UInt8 parse_error parser_v1} {P : parser_v1 → Prop} (hc : c.Sound)
    (hrest : cur.rest = ch :: rest)
    (hholds : (performAll (parser_v1.sink isRequest)
      (basic_parser_v1.turn isRequest what c (rest.length + 1) ch).events cur).Holds P)
    (hreturned : ∀ d left next, d.Sound → P next.data →
      (basic_parser_v1.turn isRequest what c (rest.length + 1) ch).outcome = .returned (d, left) →
      performAll (parser_v1.sink isRequest)
        (basic_parser_v1.turn isRequest what c (rest.length + 1) ch).events cur = .on next →
      ∀ piece, (d.s_ = .s_header_name → piece ≠ []) → Named d piece next.data)
    (hthrew : ∀ e d p, d.Sound → P p →
      (basic_parser_v1.turn isRequest what c (rest.length + 1) ch).outcome = .threw (e, d) → Named d [] p)
    (hdead : ∀ p, P p → Named ((basic_parser_v1.machine isRequest what).dead c) [] p) :
    Turned Named ((basic_parser_v1.machine isRequest what).dead c)
      (basic_parser_v1.turn isRequest what c (rest.length + 1) ch).outcome
      (performAll (parser_v1.sink isRequest)
        (basic_parser_v1.turn isRequest what c (rest.length + 1) ch).events cur) := by
  have hsafe := basic_parser_v1.safe_turn isRequest what (Nat.succ_pos rest.length) ch hc
  rw [basic_parser_v1.Safe] at hsafe
  cases hp : performAll (parser_v1.sink isRequest)
      (basic_parser_v1.turn isRequest what c (rest.length + 1) ch).events cur with
  | on next =>
    rw [hp] at hholds
    cases ho : (basic_parser_v1.turn isRequest what c (rest.length + 1) ch).outcome with
    | returned r =>
      obtain ⟨d, left⟩ := r
      rw [ho] at hsafe
      have hnext := hreturned d left next hsafe hholds ho hp
      cases left with
      | true => exact hnext [] fun hs => absurd hs (ended hc ho)
      | false =>
        have hpiece := (basic_parser_v1.lawful isRequest what).advance_piece hc ho hrest hp
        exact ⟨hpiece, hnext _ fun _ => hpiece⟩
    | threw r =>
      obtain ⟨e, d⟩ := r
      rw [ho] at hsafe
      exact hthrew e d next.data hsafe hholds ho
    | aborted | undefined =>
      rw [ho] at hsafe
      exact hsafe
  | stopped e next =>
    rw [hp] at hholds
    exact hdead next.data hholds
  | aborted | undefined =>
    rw [hp] at hholds
    exact hholds

/-- Within a value the field has a name, whatever is made of the octet. -/
theorem named_within {what : body_what} {c : basic_parser_v1} {ch : UInt8} {rest : Bytes}
    {cur : Cursor UInt8 parse_error parser_v1} (hJ : Named c cur.piece cur.data) (hrest : cur.rest = ch :: rest)
    (hvalue : c.InValue) :
    Turned Named ((basic_parser_v1.machine isRequest what).dead c)
      (basic_parser_v1.turn isRequest what c (rest.length + 1) ch).outcome
      (performAll (parser_v1.sink isRequest)
        (basic_parser_v1.turn isRequest what c (rest.length + 1) ch).events cur) := by
  have hemits := basic_parser_v1.within_turn isRequest what (rest.length + 1) ch hJ.sound.gathers hvalue
  refine @named_of_holds _ _ _ _ _ _ (fun p => p.field_ ≠ []) hJ.sound hrest ?_ ?_ ?_ ?_
  · exact performAll_holds hemits (fun t s p ht hp => parser_v1.within_take t s ht hp)
      (fun g p hg hp => parser_v1.within_call g hg hp) (hJ.value hvalue)
  · exact fun d left next hd hp _ _ _ _ => .of_field hd hp
  · exact fun e d p hd hp _ => .of_field hd hp
  · exact fun p hp => .of_field (dead_sound hJ.sound what) hp

/-- Outside a value and a name nothing is made of a value. -/
theorem named_outside {what : body_what} {c : basic_parser_v1} {ch : UInt8} {rest : Bytes}
    {cur : Cursor UInt8 parse_error parser_v1} (hJ : Named c cur.piece cur.data) (hrest : cur.rest = ch :: rest)
    (hvalue : ¬c.InValue) (hname : c.s_ ≠ .s_header_name) :
    Turned Named ((basic_parser_v1.machine isRequest what).dead c)
      (basic_parser_v1.turn isRequest what c (rest.length + 1) ch).outcome
      (performAll (parser_v1.sink isRequest)
        (basic_parser_v1.turn isRequest what c (rest.length + 1) ch).events cur) := by
  obtain ⟨hemits, hreturned, hthrew⟩ :=
    basic_parser_v1.outside_turn isRequest what (rest.length + 1) ch hJ.sound.gathers hvalue hname
  refine @named_of_holds _ _ _ _ _ _ parser_v1.Stores hJ.sound hrest ?_ ?_ ?_ ?_
  · exact performAll_holds hemits (fun t s p ht hp => parser_v1.outside_take t s ht hp)
      (fun g p hg hp => parser_v1.outside_call g hg hp) hJ.stores
  · exact fun d left next hd hp ho _ piece hpiece =>
      ⟨hd, hp, fun h => absurd h (hreturned d left ho), fun hs => .inl (hpiece hs)⟩
  · intro e d p hd hp ho
    obtain ⟨hs, hcb⟩ := hthrew e d ho
    exact .dead hd hs hp hcb
  · exact fun p hp => .dead (dead_sound hJ.sound what) rfl hp fun h => hvalue (.inr h)

/-- A name that has ended is a name, and has been handed over. -/
theorem named_of_piece {cur next : Cursor UInt8 parse_error parser_v1} (hstores : cur.data.Stores)
    (hname : cur.piece ≠ [] ∨ cur.data.field_ ≠ [])
    (h : performAll (parser_v1.sink isRequest) [.piece .call_on_field] cur = .on next) :
      next.data.field_ ≠ [] := by
  rw [performAll] at h
  by_cases hpiece : cur.piece = []
  · rw [perform, if_pos (List.isEmpty_iff.mpr hpiece)] at h
    cases h
    exact hname.resolve_left (absurd hpiece)
  · rw [perform, if_neg (by simpa using hpiece)] at h
    have hleaves := @parser_v1.field_leaves isRequest _ _ hpiece hstores
    cases ho : (parser_v1.sink isRequest).take .call_on_field cur.piece cur.data with
    | returned p =>
      rw [parser_v1.sink] at ho
      dsimp only at ho
      rw [ho] at hleaves
      rw [parser_v1.sink] at h
      dsimp only at h
      rw [ho, Cursor.checked] at h
      cases hec : cur.ec <;> rw [hec] at h <;> cases h
      exact hleaves
    | threw | aborted | undefined =>
      rw [ho] at h
      cases h

/-- A turn within a name leaves a name, since its first character has been gathered. -/
theorem named_name {what : body_what} {c : basic_parser_v1} {ch : UInt8} {rest : Bytes}
    {cur : Cursor UInt8 parse_error parser_v1} (hJ : Named c cur.piece cur.data) (hrest : cur.rest = ch :: rest)
    (hname : c.s_ = .s_header_name) :
    Turned Named ((basic_parser_v1.machine isRequest what).dead c)
      (basic_parser_v1.turn isRequest what c (rest.length + 1) ch).outcome
      (performAll (parser_v1.sink isRequest)
        (basic_parser_v1.turn isRequest what c (rest.length + 1) ch).events cur) := by
  have hcb : c.cb_ = some .call_on_field := by
    rcases hJ.sound.gathers with h | h
    · rw [hname] at h
      cases h
    · rw [h, hname]
      rfl
  have hne : c.cb_ ≠ some .call_on_value := by simp [hcb]
  have hturn : basic_parser_v1.turn isRequest what c (rest.length + 1) ch =
    basic_parser_v1.header_name ch c := by
    rw [basic_parser_v1.turn, hname]
  have hcases := @basic_parser_v1.header_name_cases c ch hcb
  rw [← hturn] at hcases
  refine @named_of_holds _ _ _ _ _ _ parser_v1.Stores hJ.sound hrest ?_ ?_ ?_ ?_
  · refine @performAll_holds _ _ _ _ _ _ _ _ (fun a => a = .piece .call_on_field) ?_ ?_ ?_ _ hJ.stores
    · rcases hcases with h | ⟨h, -⟩ <;> rw [h] <;> simp
    · rintro t s p ⟨⟩ hp
      exact @parser_v1.outside_take isRequest p .call_on_field s rfl hp
    · rintro g p (h | h) <;> cases h
  · intro d left next hd hp ho hon piece hpiece
    rcases hcases with h | ⟨-, hreturned, -⟩
    · rw [h] at hon
      exact .of_field hd (named_of_piece hJ.stores (hJ.name hname) hon)
    · obtain ⟨hcb', hs⟩ := hreturned d left ho
      refine ⟨hd, hp, ?_, fun hs => .inl (hpiece hs)⟩
      rintro (h | h)
      · rw [hs, hname] at h
        cases h
      · exact absurd h (by rwa [hcb'])
  · intro e d p hd hp ho
    rcases hcases with h | ⟨-, -, hthrew⟩
    · rw [h] at ho
      cases ho
    · obtain ⟨hs, hcb'⟩ := hthrew e d ho
      exact .dead hd hs hp (by rwa [hcb'])
  · exact fun p hp => .dead (dead_sound hJ.sound what) rfl hp hne

/-- In every state a turn that hands over a value has a name for it. -/
theorem named_turn {what : body_what} (c : basic_parser_v1) (ch : UInt8) (rest : Bytes)
    (cur : Cursor UInt8 parse_error parser_v1) (hJ : Named c cur.piece cur.data)
    (hrest : cur.rest = ch :: rest) :
    Turned Named ((basic_parser_v1.machine isRequest what).dead c)
      (basic_parser_v1.turn isRequest what c (rest.length + 1) ch).outcome
      (performAll (parser_v1.sink isRequest)
        (basic_parser_v1.turn isRequest what c (rest.length + 1) ch).events cur) := by
  by_cases hvalue : c.InValue
  · exact named_within hJ hrest hvalue
  · by_cases hname : c.s_ = .s_header_name
    · exact named_name hJ hrest hname
    · exact named_outside hJ hrest hvalue hname

/-- What is known of the sink after a callback may be weakened. -/
theorem leaves_imp {P Q : parser_v1 → Prop} (hPQ : ∀ p, P p → Q p) {o : Outcome parse_error parser_v1}
    (h : Leaves P o) : Leaves Q o := by
  cases o with
  | returned p => exact hPQ p h
  | threw | aborted | undefined => exact h

/-- When a buffer ends within a value there is a name for it, so that handing over what was gathered
    is safe. -/
theorem named_take {c : basic_parser_v1} {t : pmf_t} {piece : Bytes} {p : parser_v1} (hJ : Named c piece p)
    (hpiece : c.s_ = .s_header_name → piece ≠ []) (hcb : c.cb_ = some t) :
    Leaves (Named c []) (parser_v1.take isRequest t piece p) := by
  have hgathers : c.s_ = .s_dead ∨ basic_parser_v1.collects c.s_ = some t := by
    rcases hJ.sound.gathers with h | h
    · exact .inl h
    · exact .inr (h.symm.trans hcb)
  by_cases hvalue : c.InValue
  · obtain rfl : t = .call_on_value := by
      rcases hvalue with h | h
      · rcases hgathers with hs | hs
        · rw [hs] at h
          cases h
        · cases hstate : c.s_ <;> rw [hstate] at h hs <;> cases h <;> cases hs
          rfl
      · exact Option.some.inj (hcb.symm.trans h)
    exact leaves_imp (fun q hq => .of_field hJ.sound hq) (parser_v1.value_leaves piece (hJ.value hvalue))
  · have ht : basic_parser_v1.hands_value (.piece t) = false := by
      cases t with
      | call_on_value => exact absurd (.inr hcb) hvalue
      | call_on_method | call_on_uri | call_on_reason | call_on_field | call_on_body => rfl
    by_cases hname : c.s_ = .s_header_name
    · obtain rfl : t = .call_on_field := by
        rw [hname] at hgathers
        rcases hgathers with h | h <;> cases h
        rfl
      exact leaves_imp (fun q hq => .of_field hJ.sound hq) (parser_v1.field_leaves (hpiece hname) hJ.stores)
    · exact leaves_imp (fun q hq => ⟨hJ.sound, hq, fun h => absurd h hvalue, fun h => absurd h hname⟩)
        (parser_v1.outside_take t piece ht hJ.stores)

/-- A parser that dies in a callback. -/
theorem Named.kill {what : body_what} {c : basic_parser_v1} {piece : Bytes} {p : parser_v1}
    (hJ : Named c piece p) :
    Named ((basic_parser_v1.machine isRequest what).dead c) [] p := by
  refine ⟨dead_sound hJ.sound what, hJ.stores, ?_, fun h => by cases h⟩
  rintro (h | h)
  · cases h
  · exact hJ.value (.inr h)

/-- At the end of a buffer what has been gathered is handed over. -/
theorem named_finish {what : body_what} (c : basic_parser_v1) (cur : Cursor UInt8 parse_error parser_v1)
    (hJ : Named c cur.piece cur.data) (hpiece : c.s_ = .s_header_name → cur.piece ≠ []) :
    (finish (basic_parser_v1.machine isRequest what) (parser_v1.sink isRequest) c cur).Holds
      fun c p => Named c [] p := by
  refine finish_holds (fun hcb => ?_) (fun t hcb => named_take hJ hpiece hcb) (fun p hp => hp.kill) hJ.kill
  refine ⟨hJ.sound, hJ.stores, hJ.value, fun hs => ?_⟩
  rcases hJ.sound.gathers with h | h
  · rw [hs] at h
    cases h
  · have hnone : c.cb_ = none := hcb
    rw [hnone, hs] at h
    cases h

/-- What holds of a parser between calls. -/
def Ready (p : Parser) : Prop := Named p.base [] p.derived

/-- A call, whatever the buffer holds. -/
theorem write_ready {p : Parser} (hp : p.Ready) (buffer : Bytes) :
    (p.write isRequest buffer).Holds fun base derived => Ready ⟨base, derived⟩ := by
  unfold write
  split_ifs with hskip
  · exact hp
  · cases buffer with
    | nil =>
      have hs : p.base.s_ = .s_dead := by simpa using hskip
      exact named_finish p.base ⟨[], [], 0, none, p.derived⟩ hp fun h => by rw [hs] at h; cases h
    | cons ch rest =>
      refine loop_holds named_turn (fun c cur hJ hpiece => named_finish c cur hJ fun _ => hpiece) hp ?_
      rintro (h | h) <;> cases h

/-- How much was read before does not matter for what a write leaves. -/
theorem holds_after {J : basic_parser_v1 → parser_v1 → Prop} {w : Written basic_parser_v1 parse_error parser_v1}
    (used : Nat) (h : w.Holds J) : (w.after used).Holds J := by
  cases w <;> exact h

/-- Every buffer of a sequence may be written. -/
theorem writeAll_ready {p : Parser} (hp : p.Ready) (buffers : List Bytes) :
    (p.writeAll isRequest buffers).Holds fun base derived => Ready ⟨base, derived⟩ := by
  induction buffers generalizing p with
  | nil => exact hp
  | cons buffer buffers ih =>
    have hwrite := @write_ready isRequest p hp buffer
    rw [writeAll]
    cases hw : p.write isRequest buffer with
    | returned base derived used ec =>
      rw [hw] at hwrite
      cases ec with
      | none => exact holds_after used (ih hwrite)
      | some e => exact hwrite
    | aborted | undefined =>
      rw [hw] at hwrite
      exact hwrite

/-- After the end of the stream the parser may still be called. -/
theorem write_eof_ready {p : Parser} (hp : p.Ready) : p.write_eof.1.Ready := by
  obtain ⟨⟨hgathers, hbounded, hremaining⟩, hstores, hvalue, hname⟩ := hp
  have hsame : ∀ c : basic_parser_v1, c.content_length_ = p.base.content_length_ → c.fs_ = p.base.fs_ →
      c.pos_ = p.base.pos_ → c.Bounded := fun c => hbounded.of_eq
  unfold write_eof
  split
  case h_1 hs =>
    have hcb : p.base.cb_ = none := by
      rw [basic_parser_v1.Gathers, hs] at hgathers
      exact hgathers.resolve_left (by simp)
    refine ⟨⟨.inr hcb, hsame _ rfl rfl rfl, trivial⟩, hstores, ?_, fun h => by cases h⟩
    rintro (h | h)
    · cases h
    · exact hvalue (.inr h)
  case h_2 | h_3 => exact ⟨⟨hgathers, hbounded, hremaining⟩, hstores, hvalue, hname⟩
  case h_4 | h_5 =>
    refine ⟨⟨.inr rfl, hsame _ rfl rfl rfl, trivial⟩, hstores, ?_, fun h => by cases h⟩
    rintro (h | h) <;> cases h
  case h_6 =>
    refine ⟨⟨.inl rfl, hsame _ rfl rfl rfl, trivial⟩, hstores, ?_, fun h => by cases h⟩
    rintro (h | h)
    · cases h
    · exact hvalue (.inr h)

/-- A new parser may be called, with any limits. -/
theorem create_ready (isRequest : Bool) (header_max_size body_max_size : Nat) (skip_body : Bool) :
    (create isRequest header_max_size body_max_size skip_body).Ready := by
  refine ⟨⟨.inr ?_, ⟨Nat.le_refl _, ?_⟩, ?_⟩, ?_, ?_, ?_⟩
  · cases isRequest <;> rfl
  · intro k hk
    cases hk
  · cases isRequest <;> trivial
  · intro h
    cases h
  · rintro (h | h)
    · cases isRequest <;> cases h
    · cases h
  · intro h
    cases isRequest <;> cases h

/-- What a caller may do with a parser, whatever it has reported before. -/
inductive Call (isRequest : Bool) : Parser → Parser → Prop
  | write {p : Parser} (buffers : List Bytes) {base : basic_parser_v1} {derived : parser_v1} {used : Nat}
    {ec : Option parse_error} (h : p.writeAll isRequest buffers = .returned base derived used ec) :
    Call isRequest p ⟨base, derived⟩
  | write_eof {p : Parser} : Call isRequest p p.write_eof.1

/-- Every call leaves a parser that may be called again. -/
theorem call_ready {p q : Parser} (hp : p.Ready) (h : Call isRequest p q) : q.Ready := by
  cases h with
  | write buffers h =>
    have hwrite := @writeAll_ready isRequest p hp buffers
    rwa [h] at hwrite
  | write_eof => exact write_eof_ready hp

/-- However a parser has been used, no further call fails an assertion or reads one of the
    strings it matches outside its bounds. -/
theorem calls_return (isRequest : Bool) (header_max_size body_max_size : Nat) (skip_body : Bool) {p : Parser}
    (hp : Relation.ReflTransGen (Call isRequest) (create isRequest header_max_size body_max_size skip_body) p)
    (buffers : List Bytes) :
    ∃ base derived used ec, p.writeAll isRequest buffers = .returned base derived used ec := by
  have hready : p.Ready :=
    transition.invariant_of_step (I := Ready) (fun _ _ => call_ready) (create_ready isRequest _ _ skip_body) hp
  have hwrite := @writeAll_ready isRequest p hready buffers
  cases hw : p.writeAll isRequest buffers with
  | returned base derived used ec => exact ⟨base, derived, used, ec, rfl⟩
  | aborted | undefined =>
    rw [hw] at hwrite
    cases hwrite

/-- A write after a `write_eof` that has failed, as it does when nothing has come. -/
theorem calls_return_dead : ∃ base derived used ec,
    ((create false 8192 0 false).write_eof.1).writeAll false [lit "HTTP"] = .returned base derived used ec :=
  calls_return false 8192 0 false (.single .write_eof) [lit "HTTP"]

/-- A parser that has not died stays alive in every call that succeeds. -/
theorem write_alive {p : Parser} (hp : p.base.Sound) (hs : p.base.s_ ≠ .s_dead) {buffer : Bytes}
    {base : basic_parser_v1} {derived : parser_v1} {used : Nat}
    (h : p.write isRequest buffer = .returned base derived used none) : base.s_ ≠ .s_dead := by
  by_cases hbuffer : buffer = []
  · rw [hbuffer, write, List.isEmpty_nil, Bool.true_and, if_pos (by simpa using hs)] at h
    cases h
    exact hs
  · have hrun := @write_success isRequest p hp buffer hbuffer
    rw [Written.success_eq_some.mpr h] at hrun
    obtain ⟨r, hr, ⟨⟩⟩ := Option.map_eq_some_iff.mp hrun.symm
    refine @run_invariant _ _ _ _ _ _ _ _ (fun c _ => c.s_ ≠ .s_dead) ?_ _ _ _ _ hr hs
    intro c a data c' data' left _ hoctet
    exact basic_parser_v1.alive_turn isRequest _ 1 a c' left (octet_turn hoctet)

/-- A sequence of writes without an error leaves a parser that is not dead. -/
theorem writeAll_alive {p : Parser} (hp : p.Ready) (hs : p.base.s_ ≠ .s_dead) {buffers : List Bytes}
    {base : basic_parser_v1} {derived : parser_v1} {used : Nat}
    (h : p.writeAll isRequest buffers = .returned base derived used none) : base.s_ ≠ .s_dead := by
  induction buffers generalizing p used with
  | nil =>
    cases h
    exact hs
  | cons buffer buffers ih =>
    have hwrite := @write_ready isRequest p hp buffer
    rw [writeAll] at h
    cases hw : p.write isRequest buffer with
    | returned base' derived' used' ec =>
      rw [hw] at hwrite h
      cases ec with
      | none =>
        have hs' := write_alive hp.sound hs hw
        cases hrest : writeAll isRequest ⟨base', derived'⟩ buffers with
        | returned base'' derived'' used'' ec =>
          simp only [hrest, Written.after, Written.returned.injEq] at h
          obtain ⟨rfl, rfl, -, rfl⟩ := h
          exact ih hwrite hs' hrest
        | aborted | undefined => simp [hrest, Written.after] at h
      | some e => cases h
    | aborted | undefined =>
      rw [hw] at h
      cases h

/-- At the end of the stream the parser is complete or reports an error. -/
theorem last_returns {p : Parser} (hs : p.base.s_ ≠ .s_dead) (dynabuf : List Bytes) (got_some : Bool)
    (what : Option Bytes) :
    (∃ q dynabuf' reads, parse.last p dynabuf got_some what = .message q dynabuf' reads) ∨
      ∃ e, parse.last p dynabuf got_some what = .failed e := by
  cases what with
  | some what => exact .inr ⟨_, rfl⟩
  | none =>
    cases got_some with
    | false => exact .inr ⟨_, rfl⟩
    | true =>
      rw [parse.last, Bool.not_true, if_neg Bool.false_ne_true, write_eof]
      cases hstate : p.base.s_
      case s_dead => exact absurd hstate hs
      case s_closed_complete =>
        refine .inl ⟨p, dynabuf, [], ?_⟩
        simp [basic_parser_v1.complete, hstate]
      case s_restart | s_body_identity_eof0 | s_body_identity_eof => exact .inl ⟨_, dynabuf, [], rfl⟩
      all_goals exact .inr ⟨_, rfl⟩

/-- The loop of `parse` ends with a message or an error, from every parser that may be called and is
    not dead: neither its own assertions nor the parser's fail. -/
theorem parse_returns {p : Parser} (hp : p.Ready) (hs : p.base.s_ ≠ .s_dead) (what : Option Bytes)
    (reads : List (List Bytes)) (dynabuf : List Bytes) (got_some : Bool) :
    (∃ q dynabuf' reads', parse isRequest what reads p dynabuf got_some = .message q dynabuf' reads') ∨
      ∃ e, parse isRequest what reads p dynabuf got_some = .failed e := by
  have hround : ∀ {p : Parser} {dynabuf : List Bytes} {got_some : Bool}, p.Ready → p.base.s_ ≠ .s_dead →
      (∃ q dynabuf', parse.round isRequest p dynabuf got_some = .complete q dynabuf') ∨
      (∃ q dynabuf' got, parse.round isRequest p dynabuf got_some = .more q dynabuf' got ∧
        q.Ready ∧ q.base.s_ ≠ .s_dead) ∨
      ∃ e, parse.round isRequest p dynabuf got_some = .failed e := by
    intro p dynabuf got_some hp hs
    have hwrite := @writeAll_ready isRequest p hp dynabuf
    rw [parse.round]
    cases hw : p.writeAll isRequest dynabuf with
    | returned base derived used ec =>
      rw [hw] at hwrite
      cases ec with
      | none =>
        dsimp only
        split
        · exact .inl ⟨_, _, rfl⟩
        · exact .inr (.inl ⟨_, _, _, rfl, hwrite, writeAll_alive hp hs hw⟩)
      | some e => exact .inr (.inr ⟨_, rfl⟩)
    | aborted | undefined =>
      rw [hw] at hwrite
      cases hwrite
  induction reads generalizing p dynabuf got_some with
  | nil =>
    rw [parse]
    rcases @hround p dynabuf got_some hp hs with ⟨q, d, h⟩ | ⟨q, d, got, h, hq, hqs⟩ | ⟨e, h⟩ <;> rw [h]
    · exact .inl ⟨_, _, _, rfl⟩
    · exact last_returns hqs d got what
    · exact .inr ⟨_, rfl⟩
  | cons buffers reads ih =>
    rw [parse]
    rcases @hround p dynabuf got_some hp hs with ⟨q, d, h⟩ | ⟨q, d, got, h, hq, hqs⟩ | ⟨e, h⟩ <;> rw [h]
    · exact .inl ⟨_, _, _, rfl⟩
    · exact ih hq hqs _ got
    · exact .inr ⟨_, rfl⟩

/-- `read` ends with a message or with an error, whatever the stream brings. -/
theorem read_returns (isRequest : Bool) (what : Option Bytes) (reads : List (List Bytes)) :
    (∃ q dynabuf reads', read isRequest what reads = .message q dynabuf reads') ∨
      ∃ e, read isRequest what reads = .failed e := by
  refine parse_returns (create_ready isRequest _ _ false) ?_ what reads [] false
  cases isRequest <;> simp [create]

end Parser

end taraxacum.http
