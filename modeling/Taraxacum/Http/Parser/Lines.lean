import Taraxacum.Http.Parser.Names
import Taraxacum.Http.Parser.Pieces
import Taraxacum.Http.Write

open json exec push

namespace taraxacum.http

namespace parser_v1

/-- The fields of the message, with the one that waits to be stored. -/
def pending (p : parser_v1) : Fields := if p.flush_ then p.m_.fields.insert p.field_ p.value_ else p.m_.fields

/-- At the beginning of a line a whole field waits to be stored, or none. -/
def AtField (p : parser_v1) : Prop :=
  p.flush_ = true ∧ p.field_ ≠ [] ∨ p.flush_ = false ∧ p.field_ = [] ∧ p.value_ = []

def flushed (p : parser_v1) : parser_v1 :=
  { p with flush_ := false, m_ := { p.m_ with fields := p.pending }, field_ := [], value_ := [] }

/-- There is room for `n` octets of the header. -/
def Room (p : parser_v1) (n : Nat) : Prop := p.h_max_ = 0 ∨ n ≤ p.h_left_

/-- Between two fields `flush` stores what was read last. -/
theorem flush_eq {p : parser_v1} (hp : p.AtField) : flush p = .returned p.flushed := by
  rcases hp with ⟨hflush, hfield⟩ | ⟨hflush, hfield, hvalue⟩
  · simp [flush, flushed, pending, hflush, hfield]
  · cases p
    simp_all [flush, flushed, pending]

/-- A piece of the header that has room is counted and handed on. -/
theorem header_piece_eq {s : Bytes} {on : parser_v1 → Outcome parse_error parser_v1} {p : parser_v1}
    (hroom : p.Room s.length) : header_piece s on p = on { p with h_left_ := p.h_left_ - s.length } := by
  rw [header_piece, if_neg]
  rintro ⟨hmax, hleft⟩
  rcases hroom with h | h
  · exact hmax h
  · omega

end parser_v1

namespace basic_parser_v1

/-- Reading `s` leads a parser, whose two parts are `c` and `p`, to the parts given. -/
abbrev Reads (isRequest : Bool) (what : body_what) (s : Bytes) (c : basic_parser_v1) (p : parser_v1)
    (c' : basic_parser_v1) (p' : parser_v1) : Prop :=
  Leads (machine isRequest what) (parser_v1.sink isRequest) s c p c' p'

/-- A line begins: the octet is read as in the state given, unless a folded line goes on with it. -/
def AtLine (isRequest : Bool) (what : body_what) (c : basic_parser_v1) (p : parser_v1) (c' : basic_parser_v1)
    (p' : parser_v1) : Prop :=
  ∀ ch, is_ows ch = false → push.octet (machine isRequest what) (parser_v1.sink isRequest) c ch p =
    push.octet (machine isRequest what) (parser_v1.sink isRequest) c' ch p'

section
variable {isRequest : Bool} {what : body_what} {c c' : basic_parser_v1} {p p' : parser_v1}

/-- At the beginning of a line the parser does the same as the one it stands for. -/
theorem AtLine.run_eq (h : AtLine isRequest what c p c' p') {ch : UInt8} (hch : is_ows ch = false) (s : Bytes) :
    push.run (machine isRequest what) (parser_v1.sink isRequest) (ch :: s) c p =
      push.run (machine isRequest what) (parser_v1.sink isRequest) (ch :: s) c' p' :=
  run_same (h ch hch) s

/-- The first octet of a name. -/
theorem turn_name0 {ch : UInt8} (hs : c.s_ = .s_header_name0) (hcb : c.cb_ = none) (hch : is_tchar ch = true) :
    turn isRequest what c 1 ch = ⟨[.begin .call_on_field],
      .returned ({ name_char0 (to_field_char ch) c with
        cb_ := some .call_on_field, s_ := .s_header_name }, false)⟩ := by
  have hstate : turn isRequest what c 1 ch = header_name0 ch c := by rw [turn, hs]
  have hcr : (ch == 0x0D) = false := by simpa using (is_tchar_ne ch hch).2.2.2.2
  have hfield : (to_field_char ch == 0) = false := by
    rw [beq_eq_false_iff_ne, Ne, to_field_char_eq_zero, hch]
    simp
  have hnone : (name_char0 (to_field_char ch) c).cb_ = none := (cb_name_char0 _).trans hcb
  rw [hstate, header_name0, hcr, if_neg Bool.false_ne_true, hfield, if_neg Bool.false_ne_true]
  simp only [hnone, Option.isNone_none, assert, if_true, pure_bind, cb_some hnone]
  rfl

/-- The end of a name. -/
theorem turn_name_end (hs : c.s_ = .s_header_name) (hcb : c.cb_ = some .call_on_field) :
    turn isRequest what c 1 0x3A =
      ⟨[.piece .call_on_field], .returned ({ c with cb_ := none, s_ := .s_header_value0 }, false)⟩ := by
  have hstate : turn isRequest what c 1 0x3A = header_name 0x3A c := by rw [turn, hs]
  have hfield : (to_field_char 0x3A != 0) = false := by decide
  rw [hstate, header_name, hfield, if_neg Bool.false_ne_true, if_pos (by decide), cb_none, hcb]
  rfl

/-- A field's name, up to where its value begins. -/
theorem reads_name {name : Bytes} (hs : c.s_ = .s_header_name0) (hcb : c.cb_ = none) (hp : p.AtField)
    (hne : name ≠ []) (hname : ∀ ch ∈ name, is_tchar ch = true) (hroom : p.Room name.length)
    (hlength : c.flags_.contentlength = true → ¬lit "content-length" <+: name.map to_field_char) :
    ∃ fs pos, Reads isRequest what (name ++ lit ": ") c p
        { c with cb_ := none, s_ := .s_header_value0, fs_ := fs, pos_ := pos }
        { p.flushed with h_left_ := p.h_left_ - name.length, field_ := name } ∧
      (recognised (name.map to_field_char) = some fs ∨
        recognised (name.map to_field_char) = none ∧ plain fs = true) := by
  obtain ⟨ch, s, rfl⟩ := List.exists_cons_of_ne_nil hne
  obtain ⟨hch, hrest⟩ := List.forall_mem_cons.mp hname
  have hbegin := @turn_name0 isRequest what c ch hs hcb hch
  set c₁ : basic_parser_v1 :=
    { name_char0 (to_field_char ch) c with cb_ := some .call_on_field, s_ := .s_header_name } with hc₁
  have hkeeps : ∀ fs pos, { c₁ with fs_ := fs, pos_ := pos, cb_ := none, s_ := .s_header_value0 } =
      { c with cb_ := none, s_ := .s_header_value0, fs_ := fs, pos_ := pos } := by
    intro fs pos
    rw [hc₁]
    unfold name_char0
    split_ifs <;> rfl
  have hflags : c₁.flags_ = c.flags_ := by
    have h := congrArg basic_parser_v1.flags_ (hkeeps c.fs_ c.pos_)
    exact h
  obtain ⟨fs, pos, hquiet, hspelt⟩ := @quiet_name c₁ [to_field_char ch] isRequest what s rfl rfl hrest
    (@spelt_first c (to_field_char ch)) (by rwa [hflags])
  have htake : hand (parser_v1.sink isRequest) .call_on_field (ch :: s) p =
      some { p.flushed with h_left_ := p.h_left_ - (ch :: s).length, field_ := ch :: s } := by
    have hcounted : parser_v1.AtField { p with h_left_ := p.h_left_ - (ch :: s).length } := hp
    change value? (parser_v1.header_piece (ch :: s) (parser_v1.on_field (ch :: s)) p) = _
    rw [parser_v1.header_piece_eq hroom, parser_v1.on_field, parser_v1.flush_eq hcounted]
    rfl
  have hpiece := Quiet.piece (parser_v1.sink_additive isRequest) hbegin rfl rfl hquiet htake
  refine ⟨fs, pos, ?_, recognised_of_spelt hspelt⟩
  have hend := @turn_name_end isRequest what { c₁ with fs_ := fs, pos_ := pos } rfl rfl
  have hcolon : lit ": " = [0x3A, 0x20] := rfl
  rw [← hkeeps fs pos, hcolon]
  refine hpiece.append (.cons (octet_eq hend rfl rfl) ?_)
  exact .octet (octet_eq rfl rfl rfl)

/-- A field's value that is not empty, where `d` is what its first octet makes of the state and
    `d'` what the others do. -/
theorem reads_value {v : UInt8} {vs : Bytes} {d d' : basic_parser_v1} (hs : c.s_ = .s_header_value0)
    (hcb : c.cb_ = none) (hv : is_ows v = false) (hcr : v ≠ 0x0D)
    (hfirst : header_value v { value_begins c with
      cb_ := some .call_on_value, s_ := .s_header_value } = pure (d, false))
    (hd : d.cb_ = some .call_on_value) (hrest : Quiet (machine isRequest what) (some .call_on_value) vs d d')
    (hd' : d'.s_ = .s_header_value ∧ d'.cb_ = some .call_on_value) (hroom : p.Room (v :: vs).length)
    (hvalue : p.value_ = []) :
    Reads isRequest what (v :: vs ++ crlf) c p { d' with cb_ := none, s_ := .s_header_value_almost_done }
      { p with h_left_ := p.h_left_ - (v :: vs).length, value_ := v :: vs, flush_ := true } := by
  have hows : (v == 0x20 || v == 0x09) = false := hv
  have hbegin : turn isRequest what c 1 v = ⟨[.begin .call_on_value], .returned (d, false)⟩ := by
    have hstate : turn isRequest what c 1 v = header_value0 v c := by rw [turn, hs]
    have hnone : (value_begins c).cb_ = none := cb_value_begins.trans hcb
    have hne : (v == 0x0D) = false := by simpa using hcr
    rw [hstate, header_value0, hows, if_neg Bool.false_ne_true, hne, if_neg Bool.false_ne_true]
    simp only [hnone, Option.isNone_none, assert, if_true, pure_bind, cb_some hnone]
    have hsequence : ∀ x : Turn (basic_parser_v1 × Bool), x = pure (d, false) →
        ((⟨[.begin .call_on_value], .returned { value_begins c with cb_ := some .call_on_value }⟩ :
          Turn basic_parser_v1) >>= fun _ => x) = ⟨[.begin .call_on_value], .returned (d, false)⟩ := by
      rintro x rfl
      rfl
    exact hsequence _ hfirst
  have hend : turn isRequest what d' 1 0x0D =
      ⟨[.piece .call_on_value], .returned ({ d' with cb_ := none, s_ := .s_header_value_lf }, false)⟩ := by
    have hstate : turn isRequest what d' 1 0x0D = header_value 0x0D d' := by rw [turn, hd'.1]
    rw [hstate, header_value, if_pos (by decide), cb_none, hd'.2]
    rfl
  have htake : hand (parser_v1.sink isRequest) .call_on_value (v :: vs) p =
      some { p with h_left_ := p.h_left_ - (v :: vs).length, value_ := v :: vs, flush_ := true } := by
    change value? (parser_v1.header_piece (v :: vs) (parser_v1.on_value (v :: vs)) p) = _
    rw [parser_v1.header_piece_eq hroom, parser_v1.on_value, value?, hvalue, List.nil_append]
  have hpiece := Quiet.piece (parser_v1.sink_additive isRequest) hbegin rfl hd hrest htake
  refine hpiece.append (.cons (octet_eq hend ?_ rfl) (.octet (octet_eq rfl rfl rfl)))
  rfl

/-- A line that has ended after a value. -/
theorem atLine_value (hs : c.s_ = .s_header_value_almost_done) :
    AtLine isRequest what c p { c with flags_ := ended c.flags_ c.fs_, s_ := .s_header_name0 } p := by
  intro ch hch
  have hows : (ch == 0x20 || ch == 0x09) = false := hch
  refine octet_same ?_ rfl
  change turn isRequest what c 1 ch = _
  rw [turn, hs]
  dsimp only
  rw [header_value_almost_done, hows, if_neg Bool.false_ne_true]
  rfl

/-- A value that is empty. -/
theorem reads_empty (hs : c.s_ = .s_header_value0) (hcb : c.cb_ = none) :
    Reads isRequest what crlf c p { c with s_ := .s_header_value0_almost_done } p := by
  have hcr : turn isRequest what c 1 0x0D = ⟨[], .returned ({ c with s_ := .s_header_value0_lf }, false)⟩ := by
    have hstate : turn isRequest what c 1 0x0D = header_value0 0x0D c := by rw [turn, hs]
    rw [hstate]
    rfl
  have hgather : gather (parser_v1.sink isRequest) c.cb_ [0x0D] p = some p := by
    rw [hcb]
    rfl
  have hgather' : gather (parser_v1.sink isRequest) c.cb_ [0x0A] p = some p := by
    rw [hcb]
    rfl
  exact .cons (octet_eq hcr rfl hgather) (.octet (octet_eq rfl rfl hgather'))

/-- A line that has ended without a value, of a field nothing is looked for in. -/
theorem atLine_empty (hs : c.s_ = .s_header_value0_almost_done) (hcb : c.cb_ = none)
    (hfs : plain c.fs_ = true) :
    AtLine isRequest what c p { c with s_ := .s_header_name0 } { p with flush_ := true } := by
  intro ch hch
  have hows : (ch == 0x20 || ch == 0x09) = false := hch
  have hlength : c.fs_ ≠ .h_content_length0 := by
    intro h
    rw [h] at hfs
    cases hfs
  have hupgrade : (c.fs_ == field_state.h_upgrade) = false := by
    rw [beq_eq_false_iff_ne]
    intro h
    rw [h] at hfs
    cases hfs
  have hcall : (parser_v1.sink isRequest).call (.on_value []) p = .returned { p with flush_ := true } := by
    have hroom : p.Room ([] : Bytes).length := .inr (Nat.zero_le _)
    change parser_v1.header_piece [] (parser_v1.on_value []) p = _
    rw [parser_v1.header_piece_eq hroom, parser_v1.on_value, List.append_nil]
    rfl
  have hturn : turn isRequest what c 1 ch =
      ⟨.call (.on_value []) :: (turn isRequest what { c with s_ := .s_header_name0 } 1 ch).events,
        (turn isRequest what { c with s_ := .s_header_name0 } 1 ch).outcome⟩ := by
    have hstate : turn isRequest what c 1 ch = header_value0_almost_done ch c := by rw [turn, hs]
    rw [hstate, header_value0_almost_done, hows, if_neg Bool.false_ne_true, if_neg hlength, hupgrade,
      Bool.or_false]
    simp only [hcb, Option.isNone_none, assert, if_true, pure_bind]
    rfl
  exact octet_call hturn rfl hcall

end

end basic_parser_v1

end taraxacum.http
