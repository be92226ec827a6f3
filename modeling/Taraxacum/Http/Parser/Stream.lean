import Taraxacum.Http.Parser.Split

open json exec push

namespace taraxacum.http

/-- Consuming octets of a sequence of buffers drops them from its front. -/
theorem flatten_consume (n : Nat) (buffers : List Bytes) :
    (consume n buffers).flatten = buffers.flatten.drop n := by
  induction buffers generalizing n with
  | nil => simp [consume]
  | cons buffer buffers ih =>
    rw [consume]
    split
    · rw [List.flatten_cons, List.flatten_cons, List.drop_append_of_le_length (by omega)]
    · have hle : buffer.length ≤ n := by omega
      rw [ih, List.flatten_cons, List.drop_append, List.drop_of_length_le hle, List.nil_append]

/-- Consuming all of them leaves no buffer. -/
theorem consume_all (buffers : List Bytes) : consume buffers.flatten.length buffers = [] := by
  induction buffers with
  | nil => rfl
  | cons buffer buffers ih =>
    rw [consume, if_neg (by simp), List.flatten_cons, List.length_append, Nat.add_sub_cancel_left, ih]

namespace Parser

variable {isRequest : Bool} {p : Parser}

/-- What is left of `parse` at the end of the stream, with its buffer empty. -/
def atEnd (p : Parser) (got_some : Bool) (what : Option Bytes) : Option (Message × Bytes) :=
  (parse.last p [] got_some what).result

/-- A round of the loop in `parse`, from the run over the octets it has. -/
theorem round_eq {dynabuf : List Bytes} {got_some : Bool} (hp : p.Reading) (hbuffers : [] ∉ dynabuf)
    (hend : ∀ r, p.run isRequest dynabuf.flatten = some r → r.left = true →
      dynabuf.dropLast.flatten.length < r.used) {r : Reached basic_parser_v1 parser_v1}
    (hr : p.run isRequest dynabuf.flatten = some r) :
    parse.round isRequest p dynabuf got_some =
      if r.left then .complete (reached r) (consume r.used dynabuf)
      else .more (reached r) [] (got_some || !dynabuf.flatten.isEmpty) := by
  have hwrite := writeAll_success hp hbuffers hend
  rw [hr] at hwrite
  rw [parse.round, Written.success_eq_some.mp hwrite]
  simp only [← run_left hr hp]
  cases hleft : r.left with
  | true => rfl
  | false =>
    have hused := (run_used hr).2 hleft
    have hempty : decide (r.used > 0) = !dynabuf.flatten.isEmpty := by
      rw [hused]
      cases dynabuf.flatten <;> simp
    rw [hempty, hused, consume_all]
    rfl

/-- A round over octets that are no beginning of a message fails. -/
theorem round_none {dynabuf : List Bytes} (got_some : Bool) (hp : p.Reading) (hbuffers : [] ∉ dynabuf)
    (hr : p.run isRequest dynabuf.flatten = none) :
    (∃ e, parse.round isRequest p dynabuf got_some = .failed e) ∨
      parse.round isRequest p dynabuf got_some = .aborted ∨
      parse.round isRequest p dynabuf got_some = .undefined := by
  have hwrite := @writeAll_success isRequest p dynabuf hp hbuffers fun r h => by rw [hr] at h; cases h
  rw [hr] at hwrite
  rw [parse.round]
  cases hw : p.writeAll isRequest dynabuf with
  | returned base derived used ec =>
    rw [hw] at hwrite
    cases ec with
    | none => cases hwrite
    | some e => exact .inl ⟨_, rfl⟩
  | aborted => exact .inr (.inl rfl)
  | undefined => exact .inr (.inr rfl)

/-- The octet that makes `used` is in the last buffer of the read that brings it. -/
def EndsRead : Nat → List (List Bytes) → Prop
  | _, [] => True
  | used, buffers :: reads =>
    if used ≤ buffers.flatten.length then buffers.dropLast.flatten.length < used
    else EndsRead (used - buffers.flatten.length) reads

/-- A message that ends in the first read ends in its last buffer. -/
theorem endsRead_first {dynabuf : List Bytes} {reads : List (List Bytes)}
    {r : Reached basic_parser_v1 parser_v1} (hr : p.run isRequest dynabuf.flatten = some r)
    (hend : r.left = true → EndsRead r.used (dynabuf :: reads)) (hleft : r.left = true) :
    dynabuf.dropLast.flatten.length < r.used := by
  have h := hend hleft
  rwa [EndsRead, if_pos (run_used hr).1] at h

/-- What `parse` makes of a stream is decided by its octets alone, if the message ends in the last
    buffer of a read: how they come to be cut into reads and buffers does not show. -/
theorem parse_result {what : Option Bytes} {reads : List (List Bytes)} {dynabuf : List Bytes} {got_some : Bool}
    (hp : p.Reading) (hdynabuf : [] ∉ dynabuf) (hreads : ∀ buffers ∈ reads, [] ∉ buffers)
    (hend : ∀ r, p.run isRequest (dynabuf.flatten ++ reads.flatten.flatten) = some r → r.left = true →
      EndsRead r.used (dynabuf :: reads)) :
    (parse isRequest what reads p dynabuf got_some).result =
      (p.run isRequest (dynabuf.flatten ++ reads.flatten.flatten)).bind fun r =>
        if r.left then some (r.data.m_, (dynabuf.flatten ++ reads.flatten.flatten).drop r.used)
        else (reached r).atEnd (got_some || !(dynabuf.flatten ++ reads.flatten.flatten).isEmpty) what := by
  induction reads generalizing p dynabuf got_some with
  | nil =>
    simp only [List.flatten_nil, List.append_nil] at hend ⊢
    rw [parse]
    cases hr : p.run isRequest dynabuf.flatten with
    | none => rcases round_none got_some hp hdynabuf hr with ⟨e, h⟩ | h | h <;> simp [h, Parsed.result]
    | some r =>
      rw [round_eq hp hdynabuf (fun r h => endsRead_first h (hend r h)) hr]
      cases hleft : r.left with
      | true => simp [Parsed.result, flatten_consume, reached, hleft]
      | false => simp [atEnd, hleft]
  | cons buffers reads ih =>
    obtain ⟨hbuffers, hreads⟩ := List.forall_mem_cons.mp hreads
    rw [run_append] at hend ⊢
    rw [parse]
    cases hr : p.run isRequest dynabuf.flatten with
    | none => rcases round_none got_some hp hdynabuf hr with ⟨e, h⟩ | h | h <;> simp [h, Parsed.result]
    | some r =>
      obtain ⟨hle, hall⟩ := run_used hr
      rw [hr] at hend
      have hfirst : ∀ r', p.run isRequest dynabuf.flatten = some r' → r'.left = true →
          dynabuf.dropLast.flatten.length < r'.used := by
        intro r' hr' hleft
        rw [hr] at hr'
        cases hr'
        exact endsRead_first hr (hend r (by simp [hleft])) hleft
      rw [round_eq hp hdynabuf hfirst hr]
      cases hleft : r.left with
      | true =>
        simp [Parsed.result, flatten_consume, reached, hleft, List.drop_append_of_le_length hle]
      | false =>
        have hused := hall hleft
        have hnext := @ih (reached r) buffers (got_some || !dynabuf.flatten.isEmpty) (run_reading hr hp hleft)
          hbuffers hreads fun r' hr' hleft' => by
            have hlast := hend (r'.after r.used) (by simp [hleft, hr']) hleft'
            have hpos := used_pos hr' hleft'
            rw [EndsRead, Reached.after, if_neg (by dsimp only; omega)] at hlast
            rwa [hused, Nat.add_sub_cancel_left] at hlast
        simp only [Bool.false_eq_true, if_false, List.nil_append, hnext, Option.bind_some, hleft]
        have hrun : (reached r).run isRequest (buffers :: reads).flatten.flatten =
            (reached r).run isRequest (buffers.flatten ++ reads.flatten.flatten) := by simp
        rw [hrun]
        cases hr' : (reached r).run isRequest (buffers.flatten ++ reads.flatten.flatten) with
        | none => rfl
        | some r' =>
          have hempty : (got_some || !dynabuf.flatten.isEmpty ||
              !(buffers.flatten ++ reads.flatten.flatten).isEmpty) =
              (got_some || !(dynabuf.flatten ++ (buffers.flatten ++ reads.flatten.flatten)).isEmpty) := by
            cases dynabuf.flatten <;> simp
          simp only [Option.bind_some, Option.map_some, Reached.after, hused, List.flatten_cons,
            List.flatten_append,
            List.drop_length_add_append]
          rw [hempty]
          rfl

/-- Where each read brings one buffer, every message ends in the last buffer of a read. -/
theorem endsRead_of_single {reads : List (List Bytes)} (hreads : ∀ buffers ∈ reads, buffers.length ≤ 1)
    {used : Nat}
    (hused : 0 < used) : EndsRead used reads := by
  induction reads generalizing used with
  | nil => trivial
  | cons buffers reads ih =>
    obtain ⟨hbuffers, hreads⟩ := List.forall_mem_cons.mp hreads
    rw [EndsRead]
    split
    · have hnone : buffers.dropLast = [] := by
        rw [← List.length_eq_zero_iff, List.length_dropLast]
        omega
      simpa [hnone] using hused
    · exact ih hreads (by omega)

/-- A new parser reads. -/
theorem new_reading (isRequest : Bool) : (new isRequest).Reading := by
  refine ⟨⟨.inr ?_, ⟨Nat.le_refl _, ?_⟩, ?_⟩, ?_⟩
  · cases isRequest <;> rfl
  · intro k hk
    cases hk
  · cases isRequest <;> trivial
  · cases isRequest <;> rfl

/-- A message that nothing follows ends in the last buffer of a read, however many buffers a read
    brings. -/
theorem endsRead_of_all {reads : List (List Bytes)} (hreads : ∀ buffers ∈ reads, [] ∉ buffers) {used : Nat}
    (hpos : 0 < used) (hused : used = reads.flatten.flatten.length) : EndsRead used reads := by
  induction reads generalizing used with
  | nil => trivial
  | cons buffers reads ih =>
    obtain ⟨hbuffers, hreads⟩ := List.forall_mem_cons.mp hreads
    have hsplit : used = buffers.flatten.length + reads.flatten.flatten.length := by simpa using hused
    rw [EndsRead]
    split
    · rcases List.eq_nil_or_concat buffers with rfl | ⟨front, last, rfl⟩
      · exact hpos
      · have hlast : 0 < last.length := by
          rw [List.length_pos_iff]
          rintro rfl
          simp at hbuffers
        simp only [List.concat_eq_append, List.flatten_append, List.length_append, List.flatten_singleton,
          List.dropLast_concat] at hsplit ⊢
        omega
    · exact ih hreads (by omega) (by omega)

/-- What `read` makes of a stream, octet by octet. -/
theorem read_result {what : Option Bytes} {reads : List (List Bytes)} (hreads : ∀ buffers ∈ reads, [] ∉ buffers)
    (hend : ∀ r, (new isRequest).run isRequest reads.flatten.flatten = some r → r.left = true →
      EndsRead r.used reads) :
    (read isRequest what reads).result =
      ((new isRequest).run isRequest reads.flatten.flatten).bind fun r =>
        if r.left then some (r.data.m_, reads.flatten.flatten.drop r.used)
        else (reached r).atEnd (!reads.flatten.flatten.isEmpty) what := by
  refine parse_result (new_reading isRequest) (by simp) hreads ?_
  intro r hr hleft
  have hpos := used_pos hr hleft
  rw [EndsRead, if_neg (by simpa using Nat.ne_of_gt hpos)]
  exact hend r hr hleft

/-- What `read` makes of a stream that brings one buffer after the other. -/
theorem read_result_single {what : Option Bytes} {reads : List Bytes} (hreads : [] ∉ reads) :
    (read isRequest what (reads.map fun buffer => [buffer])).result =
      ((new isRequest).run isRequest reads.flatten).bind fun r =>
        if r.left then some (r.data.m_, reads.flatten.drop r.used)
        else (reached r).atEnd (!reads.flatten.isEmpty) what := by
  have hflatten : (reads.map fun buffer => [buffer]).flatten.flatten = reads.flatten := by
    rw [← List.flatMap_def, List.flatMap_singleton']
  rw [read_result, hflatten]
  · intro buffers hbuffers
    obtain ⟨buffer, hbuffer, rfl⟩ := List.mem_map.mp hbuffers
    rw [List.mem_singleton]
    rintro rfl
    exact hreads hbuffer
  · intro r hr hleft
    refine endsRead_of_single ?_ (used_pos hr hleft)
    intro buffers hbuffers
    obtain ⟨buffer, -, rfl⟩ := List.mem_map.mp hbuffers
    exact Nat.le_refl 1

/-- What `read` leaves of a message, and of what follows it, depends on the octets of the stream
    alone. The reads that bring them may cut them anywhere, and a read may fill several
    buffers if the octets are those of one message. -/
theorem read_segments (isRequest : Bool) (what : Option Bytes) {reads : List (List Bytes)} {whole : List Bytes}
    (hreads : ∀ buffers ∈ reads, [] ∉ buffers) (hwhole : [] ∉ whole)
    (hsame : reads.flatten.flatten = whole.flatten)
    (hcut : (∀ buffers ∈ reads, buffers.length ≤ 1) ∨
      ∃ m, (read isRequest what (whole.map fun buffer => [buffer])).result = some (m, [])) :
    (read isRequest what reads).result = (read isRequest what (whole.map fun buffer => [buffer])).result := by
  rw [read_result_single hwhole] at hcut ⊢
  rw [← hsame] at hcut ⊢
  apply read_result hreads
  intro r hr hleft
  have hpos := used_pos hr hleft
  rcases hcut with hsingle | ⟨m, hm⟩
  · exact endsRead_of_single hsingle hpos
  · apply endsRead_of_all hreads hpos
    rw [hr, Option.bind_some, if_pos hleft] at hm
    have hdrop : reads.flatten.flatten.drop r.used = [] := congrArg Prod.snd (Option.some.inj hm)
    have hle := (run_used hr).1
    have hge := List.drop_eq_nil_iff.mp hdrop
    omega

/-- The status line and the empty line come in one read or in two. -/
theorem read_segments_two : (read false none [[lit "HTTP/1.1 204 "], [lit "\r\n\r\n"]]).result =
    (read false none [[lit "HTTP/1.1 204 \r\n\r\n"]]).result :=
  @read_segments false none [[lit "HTTP/1.1 204 "], [lit "\r\n\r\n"]] [lit "HTTP/1.1 204 \r\n\r\n"]
    (by decide) (by decide)
    (by decide) (.inl (by decide))

end Parser

end taraxacum.http
