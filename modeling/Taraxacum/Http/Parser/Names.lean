import Taraxacum.Push.Leads
import Taraxacum.Http.Parser.Sound

open json exec push

namespace taraxacum.http

/-- The names of fields the parser looks at, in lower case, each with the state it is left in. -/
def recognised_names : List (Bytes × field_state) :=
  [(lit "connection", .h_connection), (lit "proxy-connection", .h_connection),
    (lit "content-length", .h_content_length0), (lit "transfer-encoding", .h_transfer_encoding),
    (lit "upgrade", .h_upgrade)]

/-- The state a name in lower case should leave the parser in, if it is one of those. -/
def recognised (name : Bytes) : Option field_state :=
  (recognised_names.find? fun entry => entry.1 == name).map (·.2)

namespace basic_parser_v1

/-- No name the parser looks at begins with `read`. -/
def Unlisted (read : Bytes) : Prop := ∀ entry ∈ recognised_names, ¬read <+: entry.1

/-- The octets read are those of `word` up to `pos_`, and there are more. -/
def Spells (word read : Bytes) (pos : Nat) : Prop := read = word.take (pos + 1) ∧ pos + 1 < word.length

/-- What the state says of the octets that have been read of a name, in lower case. -/
def Spelt (read : Bytes) (fs : field_state) (pos : Nat) : Prop :=
  match fs with
  | .h_C => read = lit "c" ∧ pos = 0
  | .h_CO => read = lit "co" ∧ pos = 1
  | .h_CON => read = lit "con" ∧ pos = 2
  | .h_matching_connection => Spells (lit "connection") read pos ∧ 3 ≤ pos
  | .h_matching_proxy_connection => Spells (lit "proxy-connection") read pos
  | .h_matching_content_length => Spells (lit "content-length") read pos ∧ 3 ≤ pos
  | .h_matching_transfer_encoding => Spells (lit "transfer-encoding") read pos
  | .h_matching_upgrade => Spells (lit "upgrade") read pos
  | .h_connection => read = lit "connection" ∨ read = lit "proxy-connection"
  | .h_content_length0 => read = lit "content-length"
  | .h_transfer_encoding => read = lit "transfer-encoding"
  | .h_upgrade => read = lit "upgrade"
  | .h_general => Unlisted read
  | _ => False

section
variable {c : basic_parser_v1} {read word : Bytes}

/-- A name whose beginning is in no word of the table is in none. -/
theorem Unlisted.append (h : Unlisted read) (t : Bytes) : Unlisted (read ++ t) := by
  intro entry hentry hbegin
  exact h entry hentry ((List.prefix_append read t).trans hbegin)

/-- Two words that differ in their first octets have no longer beginning in common. -/
theorem not_prefix_of_take {word' : Bytes} {k n : Nat} (hk : k ≤ n) (hword : k ≤ word.length)
    (hne : word.take k ≠ word'.take k) (t : Bytes) : ¬word.take n ++ t <+: word' := by
  intro hbegin
  apply hne
  have htake : word.take k = (word.take n ++ t).take k := by
    rw [List.take_append_of_le_length (by rw [List.length_take]; omega), List.take_take, Nat.min_eq_left hk]
  rw [htake]
  have hlength : (word.take n ++ t).length ≥ k := by
    rw [List.length_append, List.length_take]
    omega
  obtain ⟨rest, rfl⟩ := hbegin
  rw [List.take_append_of_le_length hlength]

/-- An octet that is not the next one of the word. -/
theorem not_prefix_of_ne {pos : Nat} {ch : UInt8} (hpos : pos + 1 < word.length) (hch : ch ≠ word[pos + 1]) :
    ¬word.take (pos + 1) ++ [ch] <+: word := by
  rintro ⟨rest, hrest⟩
  apply hch
  have hget : (word.take (pos + 1) ++ [ch] ++ rest)[pos + 1]? = some ch := by
    rw [List.append_assoc, List.getElem?_append_right (by rw [List.length_take]; omega),
      List.length_take, Nat.min_eq_left (by omega)]
    simp
  rw [hrest, List.getElem?_eq_getElem hpos] at hget
  exact (Option.some.inj hget).symm

/-- Matching a word, of which `read` has been read: the octet is not the next one, or it is the
    last one, or it is the next one. -/
theorem matching_cases {missed matched : field_state} (ch : UInt8) (h : Spells word read c.pos_) :
    (matching (word ++ [0]) ch missed matched c = pure { c with fs_ := missed, pos_ := c.pos_ + 1 } ∧
        ¬read ++ [ch] <+: word) ∨
      (matching (word ++ [0]) ch missed matched c = pure { c with fs_ := matched, pos_ := c.pos_ + 1 } ∧
        read ++ [ch] = word) ∨
      (matching (word ++ [0]) ch missed matched c = pure { c with pos_ := c.pos_ + 1 } ∧
        Spells word (read ++ [ch]) (c.pos_ + 1)) := by
  obtain ⟨rfl, hpos⟩ := h
  have hget : (word ++ [0])[c.pos_ + 1]? = some word[c.pos_ + 1] := by
    rw [List.getElem?_append_left hpos, List.getElem?_eq_getElem hpos]
  have hlength : (word ++ [0]).length - 2 = word.length - 1 := by
    rw [List.length_append, List.length_singleton]
    omega
  simp only [matching, hget, hlength]
  by_cases hch : ch = word[c.pos_ + 1]
  · have hnext : word.take (c.pos_ + 1) ++ [ch] = word.take (c.pos_ + 1 + 1) := by
      rw [hch, List.take_append_getElem hpos]
    have hsame : (ch != word[c.pos_ + 1]) = false := by simp [hch]
    rw [hsame, if_neg Bool.false_ne_true, hnext]
    by_cases hlast : c.pos_ + 1 = word.length - 1
    · right
      left
      rw [if_pos (by simpa using hlast)]
      exact ⟨rfl, List.take_of_length_le (by omega)⟩
    · right
      right
      rw [if_neg (by simpa using hlast)]
      exact ⟨rfl, rfl, by omega⟩
  · left
    have hdiffers : (ch != word[c.pos_ + 1]) = true := by simpa using hch
    rw [hdiffers, if_pos rfl]
    exact ⟨rfl, not_prefix_of_ne hpos hch⟩

/-- An octet that does not go on as the word does, after octets that begin no other. -/
theorem unlisted_of_missed {pos k : Nat} {ch : UInt8} (h : Spells word read pos) (hk : k ≤ pos + 1)
    (hdistinct : ∀ entry ∈ recognised_names, entry.1 ≠ word → word.take k ≠ entry.1.take k)
    (hmissed : ¬read ++ [ch] <+: word) : Unlisted (read ++ [ch]) := by
  obtain ⟨rfl, hpos⟩ := h
  intro entry hentry
  by_cases hword : entry.1 = word
  · rwa [hword]
  · exact not_prefix_of_take hk (by omega) (hdistinct entry hentry hword) [ch]

/-- A word that is recognised is not the beginning of another. -/
theorem unlisted_of_word {ch : UInt8} (hword : ∀ entry ∈ recognised_names, word <+: entry.1 → entry.1 = word) :
    Unlisted (word ++ [ch]) := by
  intro entry hentry hbegin
  have hsame := hword entry hentry ((List.prefix_append word [ch]).trans hbegin)
  rw [hsame] at hbegin
  have hle := hbegin.length_le
  rw [List.length_append, List.length_singleton] at hle
  omega

instance (read : Bytes) : Decidable (Unlisted read) :=
  inferInstanceAs (Decidable (∀ entry ∈ recognised_names, ¬read <+: entry.1))

/-- The words of the table begin with one of four letters. -/
theorem unlisted_first : ∀ ch : UInt8, ch ≠ 0x63 → ch ≠ 0x70 → ch ≠ 0x74 → ch ≠ 0x75 → Unlisted [ch] :=
  forall_octet (by decide +kernel)

/-- Those with c go on with o. -/
theorem unlisted_c : ∀ ch : UInt8, ch ≠ 0x6F → Unlisted (lit "c" ++ [ch]) :=
  forall_octet (by decide +kernel)

/-- Those with co go on with n. -/
theorem unlisted_co : ∀ ch : UInt8, ch ≠ 0x6E → Unlisted (lit "co" ++ [ch]) :=
  forall_octet (by decide +kernel)

/-- Those with con go on with n or t. -/
theorem unlisted_con : ∀ ch : UInt8, ch ≠ 0x6E → ch ≠ 0x74 → Unlisted (lit "con" ++ [ch]) :=
  forall_octet (by decide +kernel)

/-- The first octet of a name. -/
theorem spelt_first (ch : UInt8) : Spelt [ch] (name_char0 ch c).fs_ (name_char0 ch c).pos_ := by
  unfold name_char0
  split_ifs with hc hp ht hu
  · obtain rfl : ch = 0x63 := by simpa using hc
    exact ⟨by decide, rfl⟩
  · obtain rfl : ch = 0x70 := by simpa using hp
    have hspells : Spells (lit "proxy-connection") [0x70] 0 := ⟨by decide, by decide⟩
    exact hspells
  · obtain rfl : ch = 0x74 := by simpa using ht
    have hspells : Spells (lit "transfer-encoding") [0x74] 0 := ⟨by decide, by decide⟩
    exact hspells
  · obtain rfl : ch = 0x75 := by simpa using hu
    have hspells : Spells (lit "upgrade") [0x75] 0 := ⟨by decide, by decide⟩
    exact hspells
  · exact unlisted_first ch (by simpa using hc) (by simpa using hp) (by simpa using ht) (by simpa using hu)

/-- A further octet of a name. -/
theorem spelt_next {ch : UInt8} (h : Spelt read c.fs_ c.pos_)
    (hlength : c.flags_.contentlength = true → read ++ [ch] ≠ lit "content-length") :
    ∃ fs pos, name_char ch c = pure { c with fs_ := fs, pos_ := pos } ∧ Spelt (read ++ [ch]) fs pos := by
  unfold name_char
  cases hfs : c.fs_ <;> rw [hfs] at h <;> dsimp only [Spelt] at h
  case h_general =>
    refine ⟨c.fs_, c.pos_, rfl, ?_⟩
    rw [hfs]
    exact h.append [ch]
  case h_C =>
    obtain ⟨rfl, hpos⟩ := h
    refine ⟨_, _, rfl, ?_⟩
    split_ifs with hch
    · obtain rfl : ch = 0x6F := by simpa using hch
      exact ⟨by decide, by rw [hpos]⟩
    · exact unlisted_c ch (by simpa using hch)
  case h_CO =>
    obtain ⟨rfl, hpos⟩ := h
    refine ⟨_, _, rfl, ?_⟩
    split_ifs with hch
    · obtain rfl : ch = 0x6E := by simpa using hch
      exact ⟨by decide, by rw [hpos]⟩
    · exact unlisted_co ch (by simpa using hch)
  case h_CON =>
    obtain ⟨rfl, hpos⟩ := h
    refine ⟨_, _, rfl, ?_⟩
    rw [hpos]
    split_ifs with hn ht
    · obtain rfl : ch = 0x6E := by simpa using hn
      exact ⟨⟨by decide, by decide⟩, by decide⟩
    · obtain rfl : ch = 0x74 := by simpa using ht
      exact ⟨⟨by decide, by decide⟩, by decide⟩
    · exact unlisted_con ch (by simpa using hn) (by simpa using ht)
  case h_matching_connection =>
    obtain ⟨hspells, hpos⟩ := h
    rcases @matching_cases c _ _ .h_general .h_connection ch hspells with ⟨hm, hmissed⟩ | ⟨hm, hword⟩ |
      ⟨hm, hnext⟩
    · exact ⟨_, _, hm, @unlisted_of_missed _ _ _ 4 _ hspells (by omega) (by decide) hmissed⟩
    · exact ⟨_, _, hm, .inl hword⟩
    · exact ⟨c.fs_, _, hm, by rw [hfs]; exact ⟨hnext, by omega⟩⟩
  case h_matching_proxy_connection =>
    rcases @matching_cases c _ _ .h_general .h_connection ch h with ⟨hm, hmissed⟩ | ⟨hm, hword⟩ | ⟨hm, hnext⟩
    · exact ⟨_, _, hm, @unlisted_of_missed _ _ _ 1 _ h (by omega) (by decide) hmissed⟩
    · exact ⟨_, _, hm, .inr hword⟩
    · exact ⟨c.fs_, _, hm, by rw [hfs]; exact hnext⟩
  case h_matching_content_length =>
    obtain ⟨hspells, hpos⟩ := h
    rcases @matching_cases c _ _ .h_general .h_content_length0 ch hspells with
      ⟨hm, hmissed⟩ | ⟨hm, hword⟩ | ⟨hm, hnext⟩
    all_goals
      have hm' : matching parser_str.content_length ch .h_general .h_content_length0 c = _ := hm
      rw [hm', pure_bind]
    · exact ⟨.h_general, _, rfl, @unlisted_of_missed _ _ _ 4 _ hspells (by omega) (by decide) hmissed⟩
    · have hfirst : c.flags_.contentlength = false := Bool.eq_false_iff.mpr fun h => hlength h hword
      refine ⟨.h_content_length0, c.pos_ + 1, ?_, hword⟩
      rw [hfirst, Bool.and_false, if_neg Bool.false_ne_true]
    · refine ⟨c.fs_, c.pos_ + 1, ?_, by rw [hfs]; exact ⟨hnext, by omega⟩⟩
      rw [hfs]
      rfl
  case h_matching_transfer_encoding =>
    rcases @matching_cases c _ _ .h_general .h_transfer_encoding ch h with ⟨hm, hmissed⟩ |
      ⟨hm, hword⟩ | ⟨hm, hnext⟩
    · exact ⟨_, _, hm, @unlisted_of_missed _ _ _ 1 _ h (by omega) (by decide) hmissed⟩
    · exact ⟨_, _, hm, hword⟩
    · exact ⟨c.fs_, _, hm, by rw [hfs]; exact hnext⟩
  case h_matching_upgrade =>
    rcases @matching_cases c _ _ .h_general .h_upgrade ch h with ⟨hm, hmissed⟩ | ⟨hm, hword⟩ | ⟨hm, hnext⟩
    · exact ⟨_, _, hm, @unlisted_of_missed _ _ _ 1 _ h (by omega) (by decide) hmissed⟩
    · exact ⟨_, _, hm, hword⟩
    · exact ⟨c.fs_, _, hm, by rw [hfs]; exact hnext⟩
  case h_connection =>
    refine ⟨.h_general, c.pos_, rfl, ?_⟩
    rcases h with rfl | rfl <;> exact unlisted_of_word (by decide)
  case h_content_length0 | h_transfer_encoding | h_upgrade =>
    refine ⟨.h_general, c.pos_, rfl, ?_⟩
    subst h
    exact unlisted_of_word (by decide)

/-- The states in which nothing is looked for in a value. -/
def plain : field_state → Bool
  | .h_general | .h_C | .h_CO | .h_CON | .h_matching_connection | .h_matching_proxy_connection
  | .h_matching_content_length | .h_matching_transfer_encoding | .h_matching_upgrade => true
  | _ => false

/-- A name that is no word of the table is not recognised. -/
theorem recognised_eq_none {name : Bytes} (h : ∀ entry ∈ recognised_names, entry.1 ≠ name) :
    recognised name = none := by
  rw [recognised, List.find?_eq_none.mpr, Option.map_none]
  intro entry hentry
  simpa using h entry hentry

/-- What has been read of a word, and is less than it, is no other word. -/
theorem recognised_of_spells {pos k : Nat} (h : Spells word read pos) (hk : k ≤ pos + 1)
    (hdistinct : ∀ entry ∈ recognised_names, entry.1 ≠ word → word.take k ≠ entry.1.take k) :
      recognised read = none := by
  obtain ⟨rfl, hpos⟩ := h
  apply recognised_eq_none
  rintro entry hentry hsame
  by_cases hword : entry.1 = word
  · have hlength := congrArg List.length (hword.symm.trans hsame)
    rw [List.length_take] at hlength
    omega
  · refine not_prefix_of_take hk (by omega) (hdistinct entry hentry hword) [] ⟨[], ?_⟩
    rw [List.append_nil, List.append_nil, hsame]

/-- The state a whole name leaves the parser in: the one for this name if it is looked at, and one
    in which nothing is looked for if it is not. -/
theorem recognised_of_spelt {name : Bytes} {fs : field_state} {pos : Nat} (h : Spelt name fs pos) :
    recognised name = some fs ∨ recognised name = none ∧ plain fs = true := by
  have hnone : ∀ {word k}, Spells word name pos → k ≤ pos + 1 →
      (∀ entry ∈ recognised_names, entry.1 ≠ word → word.take k ≠ entry.1.take k) → recognised name = none :=
    fun h hk hdistinct => recognised_of_spells h hk hdistinct
  cases fs <;> dsimp only [Spelt] at h
  case h_general =>
    have hlisted : recognised name = none := recognised_eq_none fun entry hentry hsame =>
      h entry hentry (hsame ▸ List.prefix_rfl)
    exact .inr ⟨hlisted, rfl⟩
  case h_C | h_CO | h_CON =>
    obtain ⟨rfl, -⟩ := h
    decide
  case h_matching_connection | h_matching_content_length =>
    exact .inr ⟨@hnone _ 4 h.1 (by omega) (by decide), rfl⟩
  case h_matching_proxy_connection | h_matching_transfer_encoding | h_matching_upgrade =>
    exact .inr ⟨@hnone _ 1 h (by omega) (by decide), rfl⟩
  case h_connection => rcases h with rfl | rfl <;> decide
  case h_content_length0 | h_transfer_encoding | h_upgrade =>
    subst h
    decide

/-- The rest of a name, after its first octets. -/
theorem quiet_name (isRequest : Bool) (what : body_what) {s : Bytes} (hs : c.s_ = .s_header_name)
    (hcb : c.cb_ = some .call_on_field) (hname : ∀ ch ∈ s, is_tchar ch = true) (h : Spelt read c.fs_ c.pos_)
    (hlength : c.flags_.contentlength = true → ¬lit "content-length" <+: read ++ s.map to_field_char) :
    ∃ fs pos, Quiet (machine isRequest what) (some .call_on_field) s c { c with fs_ := fs, pos_ := pos } ∧
      Spelt (read ++ s.map to_field_char) fs pos := by
  induction s generalizing c read with
  | nil => exact ⟨c.fs_, c.pos_, .nil, by simpa using h⟩
  | cons ch s ih =>
    obtain ⟨hch, hname⟩ := List.forall_mem_cons.mp hname
    have hfield : to_field_char ch ≠ 0 := by
      rw [Ne, to_field_char_eq_zero, hch]
      simp
    obtain ⟨fs, pos, hchar, hspelt⟩ := @spelt_next c read (to_field_char ch) h fun hflag hsame => by
      refine hlength hflag ⟨s.map to_field_char, ?_⟩
      rw [← hsame, List.map_cons, List.append_assoc, List.singleton_append]
    obtain ⟨fs', pos', hquiet, hspelt'⟩ :=
      @ih { c with fs_ := fs, pos_ := pos } (read ++ [to_field_char ch]) hs hcb
      hname hspelt (by simpa [List.append_assoc] using hlength)
    have hturn : (machine isRequest what).turn c 1 ch =
      ⟨[], .returned ({ c with fs_ := fs, pos_ := pos }, false)⟩ := by
      have hstate : (machine isRequest what).turn c 1 ch = header_name ch c := by
        change turn isRequest what c 1 ch = header_name ch c
        rw [turn, hs]
      rw [hstate, header_name, if_pos (by simpa using hfield), hchar, pure_bind]
      rfl
    exact ⟨fs', pos', .cons hturn hcb hquiet, by simpa [List.append_assoc] using hspelt'⟩

end

end basic_parser_v1

end taraxacum.http
