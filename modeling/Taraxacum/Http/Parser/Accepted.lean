import Taraxacum.Http.Parser.Assertions
import Taraxacum.Http.Parser.Letters

open json exec push

namespace taraxacum.http

/-- A field that breaks no line: a name of token characters and a value of text without a blank at
    either end. -/
structure CleanField (name value : Bytes) : Prop where
  name_ne : name ≠ []
  tchar : ∀ ch ∈ name, is_tchar ch = true
  text : ∀ ch ∈ value, is_text ch = true
  trimmed : trim value = value

/-- A message of which no part but the body breaks its line. -/
structure Message.Clean (msg : Message) : Prop where
  method : ∀ ch ∈ msg.method, is_tchar ch = true
  url : ∀ ch ∈ msg.url, is_text ch = true ∧ ch ≠ 0x20
  reason : ∀ ch ∈ msg.reason, is_text ch = true
  fields : ∀ field ∈ msg.fields, CleanField field.1 field.2

namespace parser_v1

/-- What has been gathered of a clean message. -/
structure Clean (p : parser_v1) : Prop where
  method : ∀ ch ∈ p.method_, is_tchar ch = true
  uri : ∀ ch ∈ p.uri_, is_text ch = true ∧ ch ≠ 0x20
  reason : ∀ ch ∈ p.reason_, is_text ch = true
  field : ∀ ch ∈ p.field_, is_tchar ch = true
  value : ∀ ch ∈ p.value_, is_text ch = true
  message : p.m_.Clean

section
variable {p q : parser_v1} {s : Bytes}

/-- Storing a field trims its value, so that the message stays clean. -/
theorem flush_clean (hp : p.Clean) (h : flush p = .returned q) : q.Clean := by
  unfold flush at h
  split_ifs at h with hflush hfield
  · cases h
    exact hp
  · cases h
    refine { hp with field := by simp, value := by simp, message := { hp.message with fields := ?_ } }
    intro field hmem
    rcases List.mem_append.mp hmem with hmem | hmem
    · exact hp.message.fields field hmem
    · rw [List.mem_singleton.mp hmem]
      refine ⟨by simpa using hfield, hp.field, fun ch hch => hp.value ch (mem_of_mem_trim hch), trim_trim _⟩

/-- Counting a piece of the header does not touch the message. -/
theorem header_piece_clean {on : parser_v1 → Outcome parse_error parser_v1}
    (hon : ∀ p : parser_v1, p.Clean → on p = .returned q → q.Clean) (hp : p.Clean)
    (h : header_piece s on p = .returned q) : q.Clean := by
  unfold header_piece at h
  split_ifs at h
  exact hon { p with h_left_ := p.h_left_ - s.length } { hp with } h

/-- Two parts of letters have letters only. -/
theorem forall_mem_append {P : UInt8 → Prop} {t : Bytes} (ht : ∀ ch ∈ t, P ch) (hs : ∀ ch ∈ s, P ch) :
    ∀ ch ∈ t ++ s, P ch := by
  intro ch hch
  exact (List.mem_append.mp hch).elim (ht ch) (hs ch)

/-- A value grows by text. -/
theorem value_clean (hs : ∀ ch ∈ s, is_text ch = true) (hp : p.Clean) (h : call_on_value s p = .returned q) :
    q.Clean := by
  refine header_piece_clean (fun p hp h => ?_) hp h
  cases h
  exact { hp with value := forall_mem_append hp.value hs }

/-- Every piece of letters leaves the message clean. -/
theorem take_clean {isRequest : Bool} {t : pmf_t} (hs : ∀ ch ∈ s, basic_parser_v1.Letter t ch) (hp : p.Clean)
    (h : take isRequest t s p = .returned q) : q.Clean := by
  cases t with
  | call_on_method =>
    rw [take] at h
    split_ifs at h
    · refine header_piece_clean (fun p hp h => ?_) hp h
      cases h
      exact { hp with method := forall_mem_append hp.method hs }
    · cases h
      exact hp
  | call_on_uri =>
    rw [take] at h
    split_ifs at h
    · refine header_piece_clean (fun p hp h => ?_) hp h
      cases h
      exact { hp with uri := forall_mem_append hp.uri hs }
    · cases h
      exact hp
  | call_on_reason =>
    rw [take] at h
    split_ifs at h
    · cases h
      exact hp
    · refine header_piece_clean (fun p hp h => ?_) hp h
      cases h
      exact { hp with reason := forall_mem_append hp.reason hs }
  | call_on_field =>
    refine header_piece_clean (fun p hp h => ?_) hp h
    rw [on_field] at h
    cases hflush : flush p with
    | returned p' =>
      rw [hflush] at h
      cases h
      have hp' := flush_clean hp hflush
      exact { hp' with field := forall_mem_append hp'.field hs }
    | threw | aborted | undefined =>
      rw [hflush] at h
      cases h
  | call_on_value => exact value_clean hs hp h
  | call_on_body =>
    rw [take, call_on_body] at h
    split_ifs at h
    cases h
    exact { hp with message := { hp.message with } }

/-- The callbacks that are no pieces leave the message clean. -/
theorem call_clean {isRequest : Bool} {g : callback} (hg : basic_parser_v1.Sober True g) (hp : p.Clean)
    (h : call isRequest g p = .returned q) : q.Clean := by
  cases g with
  | on_start | on_complete =>
    cases h
    exact hp
  | reset =>
    cases h
    exact { hp with }
  | on_request =>
    rw [call] at h
    split_ifs at h <;> cases h
    · exact { hp with
        method := by simp, uri := by simp, message := { hp.message with method := hp.method, url := hp.uri } }
    · exact hp
  | on_response status_code =>
    rw [call] at h
    split_ifs at h <;> cases h
    · exact hp
    · exact { hp with reason := by simp, message := { hp.message with reason := hp.reason } }
  | on_header http_major http_minor =>
    rw [call] at h
    cases hflush : flush p with
    | returned p' =>
      rw [hflush] at h
      cases h
      have hp' := flush_clean hp hflush
      exact { hp' with message := { hp'.message with } }
    | threw | aborted | undefined =>
      rw [hflush] at h
      cases h
  | on_value s => exact value_clean hg hp h

end

/-- The sink keeps a message clean as long as it is given letters of each piece only. -/
theorem keepsLetters (isRequest : Bool) :
    (sink isRequest).KeepsLetters basic_parser_v1.Letter (basic_parser_v1.Sober True) Clean where
  take _ _ _ _ hs hp h := take_clean hs hp h
  call _ _ _ hg hp h := call_clean hg hp h

end parser_v1

namespace Parser

variable {isRequest : Bool}

section
variable {J : Parser → Prop} (hwrite : ∀ (p : Parser) buffer base derived used, J p →
  p.write isRequest buffer = .returned base derived used none → J ⟨base, derived⟩)
include hwrite

/-- What every write keeps a sequence of them keeps. -/
theorem writeAll_keeps {p : Parser} {buffers : List Bytes} {base : basic_parser_v1}
    {derived : parser_v1} {used : Nat}
    (hp : J p) (h : p.writeAll isRequest buffers = .returned base derived used none) : J ⟨base, derived⟩ := by
  induction buffers generalizing p used with
  | nil =>
    cases h
    exact hp
  | cons buffer buffers ih =>
    rw [writeAll] at h
    cases hw : p.write isRequest buffer with
    | returned base' derived' used' ec =>
      rw [hw] at h
      cases ec with
      | none =>
        have hp' := hwrite p buffer base' derived' used' hp hw
        cases hrest : writeAll isRequest ⟨base', derived'⟩ buffers with
        | returned base'' derived'' used'' ec =>
          simp only [hrest, Written.after, Written.returned.injEq] at h
          obtain ⟨rfl, rfl, -, rfl⟩ := h
          exact ih hp' hrest
        | aborted | undefined => simp [hrest, Written.after] at h
      | some e => cases h
    | aborted | undefined =>
      rw [hw] at h
      cases h

/-- What every write keeps, a round of the loop in `parse` keeps. -/
theorem round_keeps {p q : Parser} {dynabuf d : List Bytes} {got_some : Bool} (hp : J p)
    (h : parse.round isRequest p dynabuf got_some = .complete q d ∨
      ∃ got, parse.round isRequest p dynabuf got_some = .more q d got) : J q := by
  rw [parse.round] at h
  cases hw : p.writeAll isRequest dynabuf with
  | returned base derived used ec =>
    rw [hw] at h
    cases ec with
    | none =>
      have hJ := writeAll_keeps hwrite hp hw
      dsimp only at h
      split at h
      · rcases h with h | ⟨got, h⟩ <;> cases h
        exact hJ
      · rcases h with h | ⟨got, h⟩ <;> cases h
        exact hJ
    | some e => rcases h with h | ⟨got, h⟩ <;> cases h
  | aborted | undefined =>
    rw [hw] at h
    rcases h with h | ⟨got, h⟩ <;> cases h

/-- What every write that succeeds keeps, and the end of the stream too, holds of a message that is read. -/
theorem parse_keeps (heof : ∀ p q : Parser, J p → p.write_eof = (q, none) → J q) {what : Option Bytes}
    {reads : List (List Bytes)} {p q : Parser} {dynabuf dynabuf' : List Bytes} {reads' : List (List Bytes)}
    {got_some : Bool} (hp : J p) (h : parse isRequest what reads p dynabuf got_some =
      .message q dynabuf' reads') :
    J q := by
  induction reads generalizing p dynabuf got_some with
  | nil =>
    rw [parse] at h
    cases hr : parse.round isRequest p dynabuf got_some with
    | complete q' d =>
      rw [hr] at h
      cases h
      exact round_keeps hwrite hp (.inl hr)
    | more q' d got =>
      rw [hr] at h
      have hq' : J q' := round_keeps hwrite hp (.inr ⟨got, hr⟩)
      cases what with
      | some what => cases h
      | none =>
        simp only [parse.last] at h
        split at h
        · cases h
        · split at h
          · cases h
          · rename_i hend
            split at h
            · cases h
              exact heof q' q hq' hend
            · cases h
    | failed | aborted | undefined =>
      rw [hr] at h
      cases h
  | cons buffers reads ih =>
    rw [parse] at h
    cases hr : parse.round isRequest p dynabuf got_some with
    | complete q' d =>
      rw [hr] at h
      cases h
      exact round_keeps hwrite hp (.inl hr)
    | more q' d got =>
      rw [hr] at h
      exact ih (round_keeps hwrite hp (.inr ⟨got, hr⟩)) h
    | failed | aborted | undefined =>
      rw [hr] at h
      cases h

end

/-- A parser between two calls, with what it has gathered of a clean message. -/
structure Proper (p : Parser) : Prop where
  ready : p.Ready
  alive : p.base.s_ ≠ .s_dead
  clean : p.derived.Clean

/-- A new parser has an empty message, which is clean. -/
theorem new_proper (isRequest : Bool) : (new isRequest).Proper := by
  have hempty : ({} : Message).Clean := ⟨by simp, by simp, by simp, by simp⟩
  refine ⟨create_ready isRequest _ _ false, by cases isRequest <;> simp [new, create], ?_⟩
  exact ⟨by simp [new, create], by simp [new, create], by simp [new, create], by simp [new, create],
    by simp [new, create], hempty⟩

/-- A write that succeeds leaves a clean message. -/
theorem write_proper {p : Parser} {buffer : Bytes} {base : basic_parser_v1} {derived : parser_v1} {used : Nat}
    (hp : p.Proper) (h : p.write isRequest buffer = .returned base derived used none) :
      Proper ⟨base, derived⟩ := by
  by_cases hbuffer : buffer = []
  · rw [hbuffer, write, List.isEmpty_nil, Bool.true_and, if_pos (by simpa using hp.alive)] at h
    cases h
    exact hp
  · have hready := @write_ready isRequest p hp.ready buffer
    rw [h] at hready
    have hrun := @write_success isRequest p hp.ready.sound buffer hbuffer
    rw [Written.success_eq_some.mpr h] at hrun
    obtain ⟨r, hr, ⟨⟩⟩ := Option.map_eq_some_iff.mp hrun.symm
    exact ⟨hready, write_alive hp.ready.sound hp.alive h,
      (parser_v1.keepsLetters isRequest).run (basic_parser_v1.lawful isRequest _)
        (basic_parser_v1.lettered isRequest _)
        (fun c ch c' hc _ hturn => ⟨(basic_parser_v1.lawful isRequest _).kept c ch c' false hc hturn,
          fun _ => trivial⟩)
        hp.ready.sound ⟨hp.ready.sound, fun _ => trivial⟩ hr hp.clean⟩

/-- The end of the stream leaves the message clean. -/
theorem write_eof_proper {p q : Parser} (hp : p.Proper) (h : p.write_eof = (q, none)) : q.Proper := by
  have hready := write_eof_ready hp.ready
  rw [h] at hready
  rw [write_eof] at h
  split at h <;> cases h
  · exact ⟨hready, by simp, hp.clean⟩
  · exact hp
  · exact hp
  · exact ⟨hready, by simp, hp.clean⟩
  · exact ⟨hready, by simp, hp.clean⟩

/-- Whatever the stream brings, a message that is read is clean: no octet of it but in the body can
    end a line, or be taken for the end of a name. -/
theorem read_clean (isRequest : Bool) (what : Option Bytes) {reads : List (List Bytes)} {msg : Message}
    {rest : Bytes}
    (h : (read isRequest what reads).result = some (msg, rest)) : msg.Clean := by
  cases hread : read isRequest what reads with
  | message q dynabuf reads' =>
    have hq : q.Proper := parse_keeps (fun p buffer base derived used => write_proper)
      (fun p q => write_eof_proper)
      (new_proper isRequest) hread
    rw [hread] at h
    cases h
    exact hq.clean.message
  | failed | aborted | undefined =>
    rw [hread] at h
    cases h

/-- The blanks around a value are gone, and the tab within it is text. -/
theorem read_clean_one : Message.Clean { version := 11, status := 204, fields := [(lit "a", lit "b\tc")] } :=
  @read_clean false none [[lit "HTTP/1.1 204 \r\na:  b\tc \r\n\r\n"]] _ [] (by decide +kernel)

end Parser

end taraxacum.http
