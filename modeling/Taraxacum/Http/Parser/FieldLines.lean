import Mathlib.Algebra.Ring.Nat
import Taraxacum.Http.Parser.Lines
import Taraxacum.Http.Parser.Numbers

open json exec push

namespace taraxacum.http

/-- How the fields of a message say where its body ends. -/
inductive Framing where
  | none
  | length (n : Nat)
  | chunked
  deriving DecidableEq

/-- A field whose name the parser does not look at and whose value is text without a blank at
    either end. -/
structure Plain (name value : Bytes) : Prop where
  name_ne : name ≠ []
  tchar : ∀ ch ∈ name, is_tchar ch = true
  unlisted : recognised (name.map to_field_char) = none
  no_length : ¬lit "content-length" <+: name.map to_field_char
  text : ∀ ch ∈ value, is_text ch = true
  trimmed : trim value = value

/-- One field and what it says of the body. -/
inductive FieldOf : Bytes × Bytes → Framing → Prop
  | plain {name value : Bytes} (h : Plain name value) : FieldOf (name, value) .none
  | length {name : Bytes} {n : Nat} (hname : name.map to_field_char = lit "content-length")
      (hn : n < 18446744073709551610) : FieldOf (name, decimal n) (.length n)
  | chunked {name : Bytes} (hname : name.map to_field_char = lit "transfer-encoding") :
      FieldOf (name, lit "chunked") .chunked

/-- Fields of which one at most says something of the body. -/
inductive Carries : Fields → Framing → Prop
  | nil : Carries [] .none
  | plain {field : Bytes × Bytes} {fields : Fields} {framing : Framing} (hfield : FieldOf field .none)
      (hfields : Carries fields framing) : Carries (field :: fields) framing
  | framed {field : Bytes × Bytes} {fields : Fields} {framing : Framing} (hfield : FieldOf field framing)
      (hfields : Carries fields .none) : Carries (field :: fields) framing

/-- A trimmed value begins with no blank. -/
theorem is_ows_of_trim {v : UInt8} {vs : Bytes} (h : trim (v :: vs) = v :: vs) : is_ows v = false := by
  rw [Bool.eq_false_iff]
  intro hv
  have hlength := congrArg List.length h
  rw [trim, List.length_reverse, List.dropWhile_cons_of_pos hv] at hlength
  have hle := (List.dropWhile_sublist is_ows (l := (vs.dropWhile is_ows).reverse)).length_le
  have hle' := (List.dropWhile_sublist is_ows (l := vs)).length_le
  rw [List.length_reverse] at hle
  rw [List.length_cons] at hlength
  omega

/-- A name in lower case that is not empty stands for a name of token characters. -/
theorem tchar_of_map {name word : Bytes} (hname : name.map to_field_char = word) (hword : 0 ∉ word) :
    ∀ ch ∈ name, is_tchar ch = true := by
  intro ch hch
  by_contra hnot
  apply hword
  rw [← hname, List.mem_map]
  exact ⟨ch, hch, (to_field_char_eq_zero ch).mpr (by simpa using hnot)⟩

namespace parser_v1

/-- The parser after a field: the one before it is stored, and this one waits. -/
def stored (p : parser_v1) (field : Bytes × Bytes) : parser_v1 :=
  { p.flushed with
    h_left_ := p.h_left_ - field.1.length - field.2.length
    field_ := field.1
    value_ := field.2
    flush_ := true }

end parser_v1

namespace basic_parser_v1

/-- What the parser makes of a field that says something of the body. -/
def effect (c : basic_parser_v1) : Framing → basic_parser_v1
  | .none => c
  | .length n => { c with content_length_ := n, flags_ := { c.flags_ with contentlength := true } }
  | .chunked => { c with flags_ := { c.flags_ with chunked := true } }

/-- The parser at the beginning of a line, whatever has been recognised before. -/
def line (c : basic_parser_v1) (fs : field_state) (pos : Nat) : basic_parser_v1 :=
  { c with cb_ := none, s_ := .s_header_name0, fs_ := fs, pos_ := pos }

section
variable {isRequest : Bool} {what : body_what} {c c' : basic_parser_v1} {p p' : parser_v1}

/-- A value in which nothing is looked for. -/
theorem header_value_plain {v : UInt8} (hfs : plain c.fs_ = true) (hv : is_text v = true) :
    header_value v c = pure (c, false) := by
  have hcr : (v == 0x0D) = false := by simpa using (is_text_ne v hv).1
  have htext : (to_value_char v == 0) = false := by
    rw [beq_eq_false_iff_ne, Ne, to_value_char_eq_zero, hv]
    simp
  have hchar : value_char v c = pure c := by
    unfold value_char
    cases h : c.fs_ <;> rw [h] at hfs <;> cases hfs
  rw [header_value, hcr, if_neg Bool.false_ne_true, htext, if_neg Bool.false_ne_true, hchar, pure_bind]

/-- The value of a field that is not recognised changes nothing when it begins. -/
theorem value_begins_plain (hfs : plain c.fs_ = true) : value_begins c = c := by
  rw [value_begins, if_neg]
  intro h
  rw [h] at hfs
  cases hfs

theorem ended_plain {flags : parse_flag} {fs : field_state} (hfs : plain fs = true) :
    ended flags fs = flags := by
  cases fs <;> cases hfs <;> rfl

/-- Where a field has room its name has. -/
theorem room_name {field : Bytes × Bytes} (h : p.Room (field.1.length + field.2.length)) :
    p.Room field.1.length :=
  h.imp_right fun h => by omega

theorem room_value {field : Bytes × Bytes} {q : parser_v1} (h : p.Room (field.1.length + field.2.length))
    (hmax : q.h_max_ = p.h_max_) (hleft : q.h_left_ = p.h_left_ - field.1.length) : q.Room field.2.length := by
  rcases h with h | h
  · exact .inl (hmax.trans h)
  · right
    omega

/-- A field is written as its name, a colon with a space, its value and the end of the line. -/
theorem write_field_eq (name value : Bytes) :
    write_field (name, value) = name ++ lit ": " ++ (value ++ crlf) := by
  rw [write_field, List.append_assoc]

/-- A field, from the beginning of its line to the beginning of the next. -/
theorem reads_plain {name value : Bytes} (h : Plain name value) (hs : c.s_ = .s_header_name0)
    (hcb : c.cb_ = none)
    (hp : p.AtField) (hroom : p.Room (name.length + value.length)) :
    ∃ c' p' fs pos, Reads isRequest what (write_field (name, value)) c p c' p' ∧
      AtLine isRequest what c' p' (c.line fs pos) (p.stored (name, value)) := by
  obtain ⟨fs, pos, hname, hrecognised⟩ := @reads_name isRequest what c p name hs hcb hp h.name_ne h.tchar
    (@room_name p (name, value) hroom) fun _ => h.no_length
  have hfs : plain fs = true := by
    rcases hrecognised with hsome | ⟨-, hfs⟩
    · rw [h.unlisted] at hsome
      cases hsome
    · exact hfs
  rw [write_field_eq]
  cases value with
  | nil =>
    refine ⟨_, _, fs, pos, hname.append (reads_empty rfl rfl), ?_⟩
    exact atLine_empty rfl rfl hfs
  | cons v vs =>
    obtain ⟨hv, hvs⟩ := List.forall_mem_cons.mp h.text
    set c₁ : basic_parser_v1 := { c with
      cb_ := some .call_on_value, s_ := .s_header_value, fs_ := fs, pos_ := pos }
    have hbegins : value_begins { c with cb_ := none, s_ := .s_header_value0, fs_ := fs, pos_ := pos } =
        { c with cb_ := none, s_ := .s_header_value0, fs_ := fs, pos_ := pos } := value_begins_plain hfs
    have hrest : Quiet (machine isRequest what) (some .call_on_value) vs c₁ c₁ := by
      refine .same rfl fun a ha => ?_
      have hvalue : header_value a c₁ = pure (c₁, false) := header_value_plain hfs (hvs a ha)
      exact hvalue
    have hvalue := @reads_value isRequest what
      { c with cb_ := none, s_ := .s_header_value0, fs_ := fs, pos_ := pos }
      { p.flushed with h_left_ := p.h_left_ - name.length, field_ := name } v vs c₁ c₁ rfl rfl
        (is_ows_of_trim h.trimmed)
      (is_text_ne v hv).1 (by rw [hbegins]; exact header_value_plain hfs hv) rfl hrest ⟨rfl, rfl⟩
      (@room_value p (name, v :: vs) _ hroom rfl rfl) rfl
    refine ⟨_, _, fs, pos, hname.append hvalue, ?_⟩
    have hline := @atLine_value isRequest what { c₁ with cb_ := none, s_ := .s_header_value_almost_done }
      (p.stored (name, v :: vs)) rfl
    rwa [ended_plain (by exact hfs)] at hline

/-- The field that says how long the body is. -/
theorem reads_length {name : Bytes} {n : Nat} (hname : name.map to_field_char = lit "content-length")
    (hn : n < 18446744073709551610) (hs : c.s_ = .s_header_name0) (hcb : c.cb_ = none)
    (hflag : c.flags_.contentlength = false) (hp : p.AtField)
    (hroom : p.Room (name.length + (decimal n).length)) :
    ∃ c' p' fs pos, Reads isRequest what (write_field (name, decimal n)) c p c' p' ∧
      AtLine isRequest what c' p' ((c.effect (.length n)).line fs pos) (p.stored (name, decimal n)) := by
  have hne : name ≠ [] := by
    rintro rfl
    cases hname
  obtain ⟨fs, pos, hreads, hrecognised⟩ := @reads_name isRequest what c p name hs hcb hp hne
    (tchar_of_map hname (by decide)) (@room_name p (name, decimal n) hroom) fun h => by rw [hflag] at h; cases h
  obtain rfl : fs = .h_content_length0 := by
    rw [hname] at hrecognised
    rcases hrecognised with h | ⟨h, -⟩
    · exact (Option.some.inj h).symm
    · cases h
  set c₁ : basic_parser_v1 :=
    { c with cb_ := some .call_on_value, s_ := .s_header_value, fs_ := .h_content_length0, pos_ := pos,
             content_length_ := 0, flags_ := { c.flags_ with contentlength := true } }
  obtain ⟨d, ds, k, htext, hd, hfirst, hquiet⟩ := @quiet_decimal c₁ isRequest what n hn rfl rfl rfl
  obtain ⟨hcr, hspace, htab, -⟩ := is_digit_ne d hd
  have hows : is_ows d = false := by simp [is_ows, hspace, htab]
  rw [htext] at hroom ⊢
  have hvalue := @reads_value isRequest what
    { c with cb_ := none, s_ := .s_header_value0, fs_ := .h_content_length0, pos_ := pos }
    { p.flushed with h_left_ := p.h_left_ - name.length, field_ := name } d ds _ _ rfl rfl hows hcr hfirst
    rfl hquiet
    ⟨rfl, rfl⟩ (@room_value p (name, d :: ds) _ hroom rfl rfl) rfl
  rw [write_field_eq]
  refine ⟨_, _, .h_content_length, pos, hreads.append hvalue, ?_⟩
  exact atLine_value rfl

/-- The word `chunked`, from its second octet. -/
theorem quiet_chunked (isRequest : Bool) (what : body_what) (c : basic_parser_v1) :
    Quiet (machine isRequest what) (some .call_on_value) (lit "hunked")
      { c with cb_ := some .call_on_value, s_ := .s_header_value, pos_ := 0,
               fs_ := .h_matching_transfer_encoding_chunked }
      { c with cb_ := some .call_on_value, s_ := .s_header_value, pos_ := 6,
               fs_ := .h_transfer_encoding_chunked } :=
  .cons rfl rfl (.cons rfl rfl (.cons rfl rfl (.cons rfl rfl (.cons rfl rfl (.one rfl rfl)))))

/-- The field that says that the body comes in chunks. -/
theorem reads_chunked {name : Bytes} (hname : name.map to_field_char = lit "transfer-encoding")
    (hs : c.s_ = .s_header_name0) (hcb : c.cb_ = none) (hp : p.AtField)
    (hroom : p.Room (name.length + (lit "chunked").length)) :
    ∃ c' p' fs pos, Reads isRequest what (write_field (name, lit "chunked")) c p c' p' ∧
      AtLine isRequest what c' p' ((c.effect .chunked).line fs pos) (p.stored (name, lit "chunked")) := by
  have hne : name ≠ [] := by
    rintro rfl
    cases hname
  obtain ⟨fs, pos, hreads, hrecognised⟩ := @reads_name isRequest what c p name hs hcb hp hne
    (tchar_of_map hname (by decide)) (@room_name p (name, lit "chunked") hroom) fun _ => by rw [hname]; decide
  obtain rfl : fs = .h_transfer_encoding := by
    rw [hname] at hrecognised
    rcases hrecognised with h | ⟨h, -⟩
    · exact (Option.some.inj h).symm
    · cases h
  have hvalue := @reads_value isRequest what
    { c with cb_ := none, s_ := .s_header_value0, fs_ := .h_transfer_encoding, pos_ := pos }
    { p.flushed with h_left_ := p.h_left_ - name.length, field_ := name } 0x63 (lit "hunked") _ _ rfl rfl
    (by decide)
    (by decide) rfl rfl (quiet_chunked isRequest what c)
    ⟨rfl, rfl⟩ (@room_value p (name, lit "chunked") _ hroom rfl rfl) rfl
  rw [write_field_eq]
  refine ⟨_, _, .h_transfer_encoding_chunked, 6, hreads.append hvalue, ?_⟩
  exact atLine_value rfl

/-- A field that was written is read back, and stored when the next one begins. -/
theorem reads_field {field : Bytes × Bytes} {framing : Framing} (h : FieldOf field framing)
    (hs : c.s_ = .s_header_name0) (hcb : c.cb_ = none)
    (hflag : framing ≠ .none → c.flags_.contentlength = false) (hp : p.AtField)
    (hroom : p.Room (field.1.length + field.2.length)) :
    ∃ c' p' fs pos, Reads isRequest what (write_field field) c p c' p' ∧
      AtLine isRequest what c' p' ((c.effect framing).line fs pos) (p.stored field) := by
  cases h with
  | plain h => exact reads_plain h hs hcb hp hroom
  | length hname hn => exact reads_length hname hn hs hcb (hflag (by simp)) hp hroom
  | chunked hname => exact reads_chunked hname hs hcb hp hroom

end

end basic_parser_v1

/-- Names are token characters, in all kinds of fields that are read back. -/
theorem FieldOf.tchar {field : Bytes × Bytes} {framing : Framing} (h : FieldOf field framing) :
    ∀ ch ∈ field.1, is_tchar ch = true := by
  cases h with
  | plain h => exact h.tchar
  | length hname => exact tchar_of_map hname (by decide)
  | chunked hname => exact tchar_of_map hname (by decide)

/-- None of them is empty. -/
theorem FieldOf.name_ne {field : Bytes × Bytes} {framing : Framing} (h : FieldOf field framing) :
    field.1 ≠ [] := by
  cases h with
  | plain h => exact h.name_ne
  | length hname | chunked hname =>
    rintro rfl
    cases hname

/-- A value without blanks is trimmed already. -/
theorem trim_of_not_mem {s : Bytes} (h : ∀ ch ∈ s, is_ows ch = false) : trim s = s := by
  have hdrop : ∀ t : Bytes, (∀ ch ∈ t, is_ows ch = false) → t.dropWhile is_ows = t := by
    intro t ht
    cases t with
    | nil => rfl
    | cons ch t => rw [List.dropWhile_cons_of_neg (by simp [ht ch (List.mem_cons_self ..)])]
  rw [trim, hdrop s h, hdrop, List.reverse_reverse]
  intro ch hch
  exact h ch (List.mem_reverse.mp hch)

/-- Numbers are printed in digits. -/
theorem is_digit_of_mem_decimal (n : Nat) : ∀ ch ∈ decimal n, is_digit ch = true := by
  induction n using Nat.strongRecOn with
  | ind n ih =>
    by_cases hlt : n < 10
    · rw [decimal_of_lt hlt]
      intro ch hch
      rw [List.mem_singleton.mp hch]
      exact (digit_decimal n hlt).1
    · rw [decimal_of_le (by omega)]
      intro ch hch
      rcases List.mem_append.mp hch with hch | hch
      · exact ih (n / 10) (by omega) ch hch
      · rw [List.mem_singleton.mp hch]
        exact (digit_decimal (n % 10) (by omega)).1

/-- Values are trimmed, in all kinds of fields that are read back. -/
theorem FieldOf.trimmed {field : Bytes × Bytes} {framing : Framing} (h : FieldOf field framing) :
    trim field.2 = field.2 := by
  cases h with
  | plain h => exact h.trimmed
  | @length name n =>
    apply trim_of_not_mem
    intro ch hch
    obtain ⟨-, hspace, htab, -⟩ := is_digit_ne ch (is_digit_of_mem_decimal n ch hch)
    simp [is_ows, hspace, htab]
  | chunked =>
    have hword : trim (lit "chunked") = lit "chunked" := by decide
    exact hword

/-- The octets of a header that count: those of names and values. -/
def Fields.size (fields : Fields) : Nat := (fields.map fun field => field.1.length + field.2.length).sum

namespace Fields

/-- Trimming makes a value no longer. -/
theorem length_trim_le (s : Bytes) : (trim s).length ≤ s.length := by
  have hleft := (List.dropWhile_sublist is_ows (l := s)).length_le
  have hright := (List.dropWhile_sublist is_ows (l := (s.dropWhile is_ows).reverse)).length_le
  rw [List.length_reverse] at hright
  rw [trim, List.length_reverse]
  omega

/-- What inserting a field adds to the octets of the header. -/
theorem size_insert {fields : Fields} {name value : Bytes} {n k : Nat} (h : fields.size ≤ n)
    (hk : name.length + value.length ≤ k) : (fields.insert name value).size ≤ n + k := by
  have htrim := length_trim_le value
  simp only [insert, size, List.map_append, List.sum_append, List.map_cons, List.map_nil,
    List.sum_cons, List.sum_nil]
    at h ⊢
  omega

/-- Erasing adds nothing to them. -/
theorem size_erase (fields : Fields) (name : Bytes) : (fields.erase name).size ≤ fields.size := by
  induction fields with
  | nil => exact Nat.le_refl _
  | cons field fields ih =>
    simp only [erase, size, List.filter_cons, List.map_cons, List.sum_cons] at ih ⊢
    split
    · rw [List.map_cons, List.sum_cons]
      omega
    · omega

/-- What replacing a field adds to them. -/
theorem size_replace {fields : Fields} {name value : Bytes} {n k : Nat} (h : fields.size ≤ n)
    (hk : name.length + value.length ≤ k) : (fields.replace name value).size ≤ n + k := by
  have htrim := length_trim_le value
  exact size_insert ((size_erase fields name).trans h) (by omega)

end Fields

namespace parser_v1

/-- After a field another one may follow. -/
theorem stored_atField {p : parser_v1} {field : Bytes × Bytes} (h : field.1 ≠ []) : (p.stored field).AtField :=
  .inl ⟨rfl, h⟩

/-- What is flushed of a stored field is the field. -/
theorem flushed_stored {p : parser_v1} {field : Bytes × Bytes} (h : trim field.2 = field.2) :
    (p.stored field).flushed = { p.flushed with
      h_left_ := p.h_left_ - field.1.length - field.2.length
      m_ := { p.m_ with fields := p.pending ++ [field] } } := by
  have hpending : (p.stored field).pending = p.pending ++ [field] := by
    change p.pending.insert field.1 field.2 = _
    rw [Fields.insert, h]
  rw [flushed, hpending]
  rfl

/-- After all the fields have been read they are the message's, in their order. -/
theorem flushed_fields {p : parser_v1} {fields : Fields} (h : ∀ field ∈ fields, trim field.2 = field.2) :
    (fields.foldl stored p).flushed = { p.flushed with
      h_left_ := p.h_left_ - fields.size, m_ := { p.m_ with fields := p.pending ++ fields } } := by
  induction fields generalizing p with
  | nil =>
    rw [List.append_nil]
    rfl
  | cons field fields ih =>
    obtain ⟨hfield, hfields⟩ := List.forall_mem_cons.mp h
    have hflushed := @flushed_stored p field hfield
    have hpending : (p.stored field).pending = p.pending ++ [field] := by
      change p.pending.insert field.1 field.2 = _
      rw [Fields.insert, hfield]
    rw [List.foldl_cons, ih hfields, hflushed, hpending]
    have hleft : (p.stored field).h_left_ - Fields.size fields = p.h_left_ - Fields.size (field :: fields) := by
      change p.h_left_ - field.1.length - field.2.length - _ = _
      simp only [Fields.size, List.map_cons, List.sum_cons]
      omega
    rw [hleft, List.append_assoc]
    rfl

end parser_v1

namespace basic_parser_v1

section
variable {isRequest : Bool} {what : body_what} {c c' c₁ : basic_parser_v1} {p p' p₁ : parser_v1}

/-- A field is read alike wherever its line begins. -/
theorem AtLine.reads {field : Bytes × Bytes} {framing : Framing} (h : AtLine isRequest what c₁ p₁ c p)
    (hfield : FieldOf field framing) (hreads : Reads isRequest what (write_field field) c p c' p') :
    Reads isRequest what (write_field field) c₁ p₁ c' p' := by
  obtain ⟨ch, s, hname⟩ := List.exists_cons_of_ne_nil hfield.name_ne
  have htchar : is_tchar ch = true := hfield.tchar ch (by rw [hname]; exact List.mem_cons_self ..)
  obtain ⟨hspace, htab, -⟩ := is_tchar_ne ch htchar
  have hows : is_ows ch = false := by simp [is_ows, hspace, htab]
  have hline : write_field field = ch :: (s ++ lit ": " ++ field.2 ++ crlf) := by rw [write_field, hname]; rfl
  rw [Reads, Leads, hline] at hreads ⊢
  rwa [h.run_eq hows]

/-- All fields that were written are read back, in order. -/
theorem reads_fields {fields : Fields} {framing : Framing} (h : Carries fields framing)
    {fs : field_state} {pos : Nat}
    (hline : AtLine isRequest what c₁ p₁ (c.line fs pos) p)
    (hflag : framing ≠ .none → c.flags_.contentlength = false)
    (hp : p.AtField) (hroom : p.Room fields.size) :
    ∃ c' p' fs' pos', Reads isRequest what (write_fields fields) c₁ p₁ c' p' ∧
      AtLine isRequest what c' p' ((c.effect framing).line fs' pos') (fields.foldl parser_v1.stored p) := by
  have hsplit : ∀ (field : Bytes × Bytes) (fields : Fields) (p : parser_v1),
    p.Room (Fields.size (field :: fields)) →
      p.Room (field.1.length + field.2.length) ∧ (p.stored field).Room fields.size := by
    intro field fields p hroom
    have hsize : Fields.size (field :: fields) = field.1.length + field.2.length + fields.size := rfl
    rw [hsize] at hroom
    rcases hroom with hmax | hleft
    · exact ⟨.inl hmax, .inl hmax⟩
    · refine ⟨.inr (by omega), .inr ?_⟩
      change _ ≤ p.h_left_ - field.1.length - field.2.length
      omega
  induction h generalizing c c₁ p p₁ fs pos with
  | nil => exact ⟨c₁, p₁, fs, pos, .nil, hline⟩
  | @plain field fields framing hfield hfields ih =>
    obtain ⟨hfirst, hrest⟩ := hsplit field fields p hroom
    obtain ⟨c₂, p₂, fs₂, pos₂, hreads, hline₂⟩ :=
      @reads_field isRequest what (c.line fs pos) p field _ hfield rfl rfl
      (fun h => absurd rfl h) hp hfirst
    obtain ⟨c', p', fs', pos', hreads', hline'⟩ := @ih c c₂ (p.stored field) p₂ fs₂ pos₂ hline₂ hflag
      (parser_v1.stored_atField hfield.name_ne) hrest
    exact ⟨c', p', fs', pos', (hline.reads hfield hreads).append hreads', hline'⟩
  | @framed field fields framing hfield hfields ih =>
    obtain ⟨hfirst, hrest⟩ := hsplit field fields p hroom
    obtain ⟨c₂, p₂, fs₂, pos₂, hreads, hline₂⟩ :=
      @reads_field isRequest what (c.line fs pos) p field _ hfield rfl rfl
      hflag hp hfirst
    obtain ⟨c', p', fs', pos', hreads', hline'⟩ := @ih (c.effect framing) c₂ (p.stored field) p₂ fs₂ pos₂
      (by cases framing <;> exact hline₂) (fun h => absurd rfl h)
        (parser_v1.stored_atField hfield.name_ne) hrest
    exact ⟨c', p', fs', pos', (hline.reads hfield hreads).append hreads', hline'⟩

end

end basic_parser_v1

end taraxacum.http
